import GraduationServer.Codec.BinaryWriter
import GraduationServer.Foundations.Frames

/-!
# Packets

`TcpSession::Send` puts ten or fourteen bytes in front of what a writer holds: the number of bytes that
follow, in host order and as wide as the type of the sum `len + 6`, the length of the payload as
`htonl` gives it, and two zero bytes. The class of the client server (`ClientSession.h`) counts in `int`,
that of the file server (`FileServer/TcpSession.cpp`) in `int64_t`.

So a packet is a frame (`TcpSession.send_eq`), and a reader that drops six bytes of every body gets back
the payloads that were sent (`readPayloads_send`). But both hand the packet to `TcpConnection::send`, which
takes its length as an `int`: a packet from 2^31 bytes on does not go out (`packets_decodable`).
-/

namespace GraduationServer

namespace BinaryWriter

/-- `toString`. -/
def toString (bw : BinaryWriter) : Bytes := bw.buffer

/-- `Clear`. -/
def clear (bw : BinaryWriter) : BinaryWriter := { bw with buffer := [], index := 0 }

end BinaryWriter

/-- `TcpConnection::send`: the bytes that go out. It gets the length of the message as an `int`, and there
are none for a negative one. -/
def TcpConnection.send (message : Bytes) : Option Bytes :=
  let len := Int.bmod message.length (2 ^ 32)
  if len < 0 then none else some (message.take len.toNat)

/-- `TcpSession::Send` of the client server on a connection: what is sent, and the writer afterwards. -/
def TcpSession.send (write : BinaryWriter) : Option Bytes × BinaryWriter :=
  let out := write.toString
  let write := write.clear
  let len := BitVec.ofNat 32 out.length
  let write := write.writeData 4 (len + 6)
  let write := write.writeData 4 (htonl len)
  let write := write.writeData 2 (htons 0)
  let out := write.toString ++ out
  (TcpConnection.send out, write)

/-- `TcpSession::Send` of the file server. `htonl` takes the lower half of the length. -/
def FileServer.TcpSession.send (write : BinaryWriter) : Option Bytes × BinaryWriter :=
  let out := write.toString
  let write := write.clear
  let len := BitVec.ofNat 64 out.length
  let write := write.writeData 8 (len + 6)
  let write := write.writeData 4 (htonl (len.setWidth 32))
  let write := write.writeData 2 (htons 0)
  let out := write.toString ++ out
  (TcpConnection.send out, write)

/-- A message goes out whole when its length is an `int`. -/
theorem TcpConnection.send_of_lt {message : Bytes} (h : message.length < 2 ^ 31) :
    TcpConnection.send message = some message := by
  have hlen : Int.bmod message.length (2 ^ 32) = message.length :=
    Int.bmod_eq_of_le (by omega) (by omega)
  have hpos : ¬ (message.length : ℤ) < 0 := by omega
  unfold TcpConnection.send
  dsimp only
  rw [hlen, if_neg hpos, Int.toNat_natCast, List.take_length]

/-- The length of a longer message comes out negative. -/
theorem TcpConnection.send_eq_none {message : Bytes} (h : 2 ^ 31 ≤ message.length)
    (hlt : message.length < 2 ^ 32) : TcpConnection.send message = none := by
  have hlen : Int.bmod message.length (2 ^ 32) = message.length - 2 ^ 32 := by
    rw [Int.bmod_def]
    omega
  have hneg : (message.length : ℤ) - 2 ^ 32 < 0 := by omega
  unfold TcpConnection.send
  dsimp only
  rw [hlen, if_pos hneg]

/-! ## The shape of a packet -/

/-- The bytes of an integer from the highest one on. -/
def beBytes (w n : ℕ) : Bytes := (leBytes w n).reverse

/-- What follows the leading length. -/
def packetBody (payload : Bytes) : Bytes := beBytes 4 payload.length ++ [0, 0] ++ payload

theorem length_packetBody (payload : Bytes) : (packetBody payload).length = payload.length + 6 := by
  rw [packetBody, beBytes]
  simp only [List.length_append, List.length_reverse, length_leBytes, List.length_cons, List.length_nil]
  omega

theorem drop_packetBody (payload : Bytes) : (packetBody payload).drop 6 = payload :=
  List.drop_left' (by simp [beBytes])

/-- The packet of a payload: a leading length, of `w` bytes, which is the number of bytes behind it, a
length of four bytes in network order, two zero bytes, and the payload. -/
def packet (w : ℕ) (payload : Bytes) : Bytes := frame w (packetBody payload)

theorem length_packet (w : ℕ) (payload : Bytes) :
    (packet w payload).length = payload.length + w + 6 := by
  rw [packet, frame, List.length_append, length_leBytes, length_packetBody]
  omega

/-- Three integers are written one behind the other. -/
theorem toString_writeData (write : BinaryWriter) {w : ℕ} (hw : w ≤ 8) (a : BitVec (8 * w))
    (b : BitVec (8 * 4)) (c : BitVec (8 * 2)) :
    (((write.clear.writeData w a).writeData 4 b).writeData 2 c).toString =
      leBytes w a.toNat ++ leBytes 4 b.toNat ++ leBytes 2 c.toNat := by
  have h₀ : write.clear.WellIndexed := rfl
  have h₁ := BinaryWriter.wellIndexed_writeData h₀ w a (by simp [BinaryWriter.clear]; omega)
  have hbuffer₁ := BinaryWriter.buffer_writeData h₀ w a
  have hbuffer₂ := BinaryWriter.buffer_writeData h₁ 4 b
  have h₂ := BinaryWriter.wellIndexed_writeData h₁ 4 b (by
    rw [hbuffer₁, List.length_append, length_leBytes]
    simp [BinaryWriter.clear]
    omega)
  rw [BinaryWriter.toString, BinaryWriter.buffer_writeData h₂, hbuffer₂, hbuffer₁]
  rfl

/-- Two lengths and two zero bytes in front of a payload make its packet. -/
theorem packet_writeData (write : BinaryWriter) {w : ℕ} (hw : w ≤ 8) {a : BitVec (8 * w)}
    {len : BitVec 32} (ha : a.toNat = write.toString.length + 6)
    (hlen : len.toNat = write.toString.length) :
    (((write.clear.writeData w a).writeData 4 (htonl len)).writeData 2 (htons 0)).toString ++
      write.toString = packet w write.toString := by
  have hhtonl : leBytes 4 (htonl len).toNat = beBytes 4 len.toNat := leBytes_hton 4 len
  have hhtons : leBytes 2 (htons 0).toNat = [0, 0] := by decide
  rw [toString_writeData write hw, hhtonl, hhtons, ha, hlen, packet, frame, length_packetBody,
    packetBody]
  simp only [List.append_assoc]

theorem toNat_length {n k : ℕ} (h : n < 2 ^ 31 - 6) (hk : 32 ≤ k) :
    (BitVec.ofNat k n).toNat = n ∧ (BitVec.ofNat k n + 6#k).toNat = n + 6 := by
  have hpow : 2 ^ 32 ≤ 2 ^ k := Nat.pow_le_pow_right (by decide) hk
  have hn : (BitVec.ofNat k n).toNat = n := by
    rw [BitVec.toNat_ofNat, Nat.mod_eq_of_lt (by omega)]
  refine ⟨hn, ?_⟩
  rw [BitVec.toNat_add, hn, BitVec.toNat_ofNat, Nat.mod_eq_of_lt (by omega : 6 < 2 ^ k)]
  exact Nat.mod_eq_of_lt (by omega)

theorem TcpSession.send_eq {write : BinaryWriter} (h : write.toString.length < 2 ^ 31 - 6) :
    (TcpSession.send write).1 = TcpConnection.send (packet 4 write.toString) := by
  obtain ⟨hlen, hsum⟩ := toNat_length h (le_refl 32)
  simp only [TcpSession.send]
  exact congrArg TcpConnection.send (packet_writeData write (by decide) hsum hlen)

theorem FileServer.TcpSession.send_eq {write : BinaryWriter}
    (h : write.toString.length < 2 ^ 31 - 6) :
    (FileServer.TcpSession.send write).1 = TcpConnection.send (packet 8 write.toString) := by
  obtain ⟨hlen, hsum⟩ := toNat_length h (by decide : 32 ≤ 64)
  have hhalf : ((BitVec.ofNat 64 write.toString.length).setWidth 32).toNat = write.toString.length := by
    rw [BitVec.toNat_setWidth, hlen, Nat.mod_eq_of_lt (by omega)]
  simp only [FileServer.TcpSession.send]
  exact congrArg TcpConnection.send (packet_writeData write le_rfl hsum hhalf)

/-! ## Reading packets -/

/-- What a reader gets that drops six bytes of every body, for a stream that arrives in these chunks. -/
def readPayloads (w : ℕ) (chunks : List Bytes) : List Bytes :=
  (chunks.foldl (Receiver.receive w) {}).bodies.map (List.drop 6)

section Reader

variable {w : ℕ} {send : BinaryWriter → Option Bytes} {writes : List BinaryWriter}

/-- The packets that go out are the frames of their bodies. -/
theorem flatten_filterMap_send
    (hsend : ∀ write ∈ writes, send write = some (packet w write.toString)) :
    (writes.filterMap send).flatten =
      (writes.map fun write => packetBody write.toString).flatMap (frame w) := by
  have hpackets : writes.filterMap send = writes.map fun write => packet w write.toString := by
    rw [← List.filterMap_eq_map]
    exact List.filterMap_congr hsend
  rw [hpackets, List.flatMap_map]
  rfl

theorem map_drop_packetBody (writes : List BinaryWriter) :
    (writes.map fun write => packetBody write.toString).map (List.drop 6) =
      writes.map BinaryWriter.toString := by
  rw [List.map_map]
  exact List.map_congr_left fun write _ => drop_packetBody _

theorem length_packetBody_lt (hw : 4 ≤ w)
    (h : ∀ write ∈ writes, write.toString.length < 2 ^ 31 - 6) :
    ∀ body ∈ writes.map (fun write => packetBody write.toString), body.length < 256 ^ w := by
  have hpow : 256 ^ 4 ≤ 256 ^ w := Nat.pow_le_pow_right (by decide) hw
  intro body hbody
  obtain ⟨write, hwrite, rfl⟩ := List.mem_map.1 hbody
  have hlength := h write hwrite
  rw [length_packetBody]
  omega

/-- **The payloads are recovered**, however the stream is cut up on its way. -/
theorem readPayloads_send (hw : 4 ≤ w) (h : ∀ write ∈ writes, write.toString.length < 2 ^ 31 - 6)
    (hsend : ∀ write ∈ writes, send write = some (packet w write.toString)) {chunks : List Bytes}
    (hchunks : chunks.flatten = (writes.filterMap send).flatten) :
    readPayloads w chunks = writes.map BinaryWriter.toString := by
  rw [flatten_filterMap_send hsend] at hchunks
  rw [readPayloads, Receiver.receive_frames (by omega) (length_packetBody_lt hw h) hchunks,
    map_drop_packetBody]

/-- While the stream is on its way the first payloads have been recovered. -/
theorem readPayloads_prefix (hw : 4 ≤ w) (h : ∀ write ∈ writes, write.toString.length < 2 ^ 31 - 6)
    (hsend : ∀ write ∈ writes, send write = some (packet w write.toString)) {chunks : List Bytes}
    (hchunks : chunks.flatten <+: (writes.filterMap send).flatten) :
    readPayloads w chunks <+: writes.map BinaryWriter.toString := by
  rw [flatten_filterMap_send hsend] at hchunks
  rw [readPayloads, ← map_drop_packetBody]
  exact (Receiver.receive_prefix (by omega) (length_packetBody_lt hw h) hchunks).map _

/-! ## Unique decoding -/

/-- Every payload goes out as its packet, and the payloads are recovered from the stream of what has gone
out. -/
structure Decodable (w : ℕ) (send : BinaryWriter → Option Bytes) (writes : List BinaryWriter) :
    Prop where
  sent : ∀ write ∈ writes, send write = some (packet w write.toString)
  read : ∀ chunks : List Bytes, chunks.flatten = (writes.filterMap send).flatten →
    readPayloads w chunks = writes.map BinaryWriter.toString

/-- A writer of packets with a leading length of `w` bytes is decodable as long as the length of every
packet is an `int`. -/
theorem decodable_iff (hw : 4 ≤ w) (hw' : w ≤ 8)
    (h : ∀ write ∈ writes, write.toString.length < 2 ^ 31 - 6)
    (hsend : ∀ write ∈ writes, send write = TcpConnection.send (packet w write.toString)) :
    Decodable w send writes ↔ ∀ write ∈ writes, write.toString.length + w + 6 < 2 ^ 31 := by
  constructor
  · intro hdecodable write hwrite
    by_contra hlong
    have hsent := hdecodable.sent write hwrite
    have hlength := h write hwrite
    have hnone : TcpConnection.send (packet w write.toString) = none :=
      TcpConnection.send_eq_none (by rw [length_packet]; omega) (by rw [length_packet]; omega)
    rw [hsend write hwrite, hnone] at hsent
    cases hsent
  · intro hshort
    have hsent : ∀ write ∈ writes, send write = some (packet w write.toString) := by
      intro write hwrite
      rw [hsend write hwrite]
      exact TcpConnection.send_of_lt (by rw [length_packet]; exact hshort write hwrite)
    exact ⟨hsent, fun chunks hchunks => readPayloads_send hw h hsent hchunks⟩

end Reader

/-- **Packets are uniquely decodable**, of the client server and of the file server, as long as the length
of every packet is an `int`. -/
theorem packets_decodable {writes : List BinaryWriter}
    (h : ∀ write ∈ writes, write.toString.length < 2 ^ 31 - 6) :
    (Decodable 4 (fun write => (TcpSession.send write).1) writes ↔
        ∀ write ∈ writes, write.toString.length < 2 ^ 31 - 10) ∧
      (Decodable 8 (fun write => (FileServer.TcpSession.send write).1) writes ↔
        ∀ write ∈ writes, write.toString.length < 2 ^ 31 - 14) := by
  rw [decodable_iff le_rfl (by decide) h fun write hwrite => TcpSession.send_eq (h write hwrite),
    decodable_iff (by decide) le_rfl h fun write hwrite => FileServer.TcpSession.send_eq (h write hwrite)]
  constructor
  · exact forall₂_congr fun write _ => by omega
  · exact forall₂_congr fun write _ => by omega

/-- A payload that is shorter than 2^31-6 bytes, and its packet is not shorter than 2^31. -/
theorem not_packets_decodable :
    ¬ ∀ writes : List BinaryWriter, (∀ write ∈ writes, write.toString.length < 2 ^ 31 - 6) →
      Decodable 4 (fun write => (TcpSession.send write).1) writes ∧
        Decodable 8 (fun write => (FileServer.TcpSession.send write).1) writes := by
  intro h
  obtain ⟨write, hlength⟩ : ∃ write : BinaryWriter, write.toString.length = 2 ^ 31 - 10 :=
    ⟨⟨List.replicate (2 ^ 31 - 10) 0, 2147483638⟩, List.length_replicate⟩
  have hshort : ∀ write' ∈ [write], write'.toString.length < 2 ^ 31 - 6 := by
    intro write' hmem
    rw [List.mem_singleton.1 hmem, hlength]
    decide
  have hdecodable := (h [write] hshort).1
  rw [decodable_iff le_rfl (by decide) hshort fun write' hmem => TcpSession.send_eq (hshort write' hmem)]
    at hdecodable
  have hfalse := hdecodable write (List.mem_singleton_self _)
  omega

/-- Two payloads, of which the second is empty. -/
theorem packets_decodable_two :
    Decodable 4 (fun write => (TcpSession.send write).1) [⟨ascii "hi", 2⟩, {}] := by
  have hshort : ∀ write ∈ [⟨ascii "hi", 2⟩, ({} : BinaryWriter)],
      write.toString.length < 2 ^ 31 - 6 := by
    decide
  exact (packets_decodable hshort).1.2 (by decide)

end GraduationServer
