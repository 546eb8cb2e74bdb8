import GraduationServer.Codec.Frames
import Mathlib.Logic.Function.Iterate

/-!
# One writer on several connections

`TcpSession::Send` takes the payload out of the writer, which it clears, and writes the header of the
packet into it. The header is what a second call with the same writer sends as its payload: of `n` calls
with one writer the first sends the content of the writer, and each other one the header of the packet
before (`sends_eq`). So the content is sent by all of them only if there is one at most, or if it is a
header of itself (`sentToAll_iff`).
-/

namespace GraduationServer

/-- What is in front of the payload of a packet. -/
def header (w : ℕ) (payload : Bytes) : Bytes :=
  leBytes w (payload.length + 6) ++ (beBytes 4 payload.length ++ [0, 0])

/-- The header of a payload of its own length. -/
def selfHeader (w : ℕ) : Bytes := leBytes w (w + 12) ++ (beBytes 4 (w + 6) ++ [0, 0])

/-- What `n` calls of `Send` with one writer send, each on a connection of its own. -/
def sends (send : BinaryWriter → Option Bytes × BinaryWriter) : ℕ → BinaryWriter → List (Option Bytes)
  | 0, _ => []
  | n + 1, write => (send write).1 :: sends send n (send write).2

/-- All calls send the packet of what the writer holds before the first one. -/
def SentToAll (w : ℕ) (send : BinaryWriter → Option Bytes × BinaryWriter) (n : ℕ)
    (write : BinaryWriter) : Prop :=
  ∀ frame ∈ sends send n write, frame = some (packet w write.toString)

/-! ## Headers -/

section Header

variable {w : ℕ} {payload payload' : Bytes}

theorem packet_eq (w : ℕ) (payload : Bytes) : packet w payload = header w payload ++ payload := by
  rw [packet, frame, length_packetBody, packetBody, header]
  simp only [List.append_assoc]

@[simp] theorem length_header (w : ℕ) (payload : Bytes) : (header w payload).length = w + 6 := by
  simp [header, beBytes]

theorem packet_injective (h : packet w payload = packet w payload') : payload = payload' := by
  rw [packet_eq, packet_eq] at h
  exact (List.append_inj h (by rw [length_header, length_header])).2

theorem header_eq_self_iff : header w payload = payload ↔ payload = selfHeader w := by
  have hself : ∀ {s : Bytes}, s.length = w + 6 → header w s = selfHeader w := by
    intro s hs
    rw [header, hs, selfHeader]
  constructor
  · intro h
    rw [← h]
    apply hself
    rw [← h, length_header]
  · rintro rfl
    apply hself
    simp [selfHeader, beBytes]

example : selfHeader 4 = [16, 0, 0, 0, 0, 0, 0, 10, 0, 0] := by decide

end Header

/-! ## One call -/

/-- Two lengths and two zero bytes are the header. -/
theorem header_writeData (write : BinaryWriter) {w : ℕ} (hw : w ≤ 8) {a : BitVec (8 * w)}
    {len : BitVec 32} (ha : a.toNat = write.toString.length + 6)
    (hlen : len.toNat = write.toString.length) :
    (((write.clear.writeData w a).writeData 4 (htonl len)).writeData 2 (htons 0)).toString =
      header w write.toString := by
  have hpacket := packet_writeData write hw ha hlen
  rw [packet_eq] at hpacket
  exact List.append_cancel_right hpacket

theorem TcpSession.toString_send {write : BinaryWriter} (h : write.toString.length < 2 ^ 31 - 6) :
    (TcpSession.send write).2.toString = header 4 write.toString := by
  obtain ⟨hlen, hsum⟩ := toNat_length h (le_refl 32)
  exact header_writeData write (by decide) hsum hlen

theorem FileServer.TcpSession.toString_send {write : BinaryWriter}
    (h : write.toString.length < 2 ^ 31 - 6) :
    (FileServer.TcpSession.send write).2.toString = header 8 write.toString := by
  obtain ⟨hlen, hsum⟩ := toNat_length h (by decide : 32 ≤ 64)
  have hhalf : ((BitVec.ofNat 64 write.toString.length).setWidth 32).toNat = write.toString.length := by
    rw [BitVec.toNat_setWidth, hlen, Nat.mod_eq_of_lt (by omega)]
  exact header_writeData write le_rfl hsum hhalf

/-- What a call sends and leaves behind, for a packet whose length is an `int`. -/
def SendsPacket (w : ℕ) (send : BinaryWriter → Option Bytes × BinaryWriter) : Prop :=
  ∀ write : BinaryWriter, write.toString.length + w + 6 < 2 ^ 31 →
    (send write).1 = some (packet w write.toString) ∧ (send write).2.toString = header w write.toString

theorem TcpSession.sendsPacket : SendsPacket 4 TcpSession.send := by
  intro write h
  have hlength : (packet 4 write.toString).length < 2 ^ 31 := by
    rw [length_packet]
    exact h
  exact ⟨(send_eq (by omega)).trans (TcpConnection.send_of_lt hlength), toString_send (by omega)⟩

theorem FileServer.TcpSession.sendsPacket : SendsPacket 8 FileServer.TcpSession.send := by
  intro write h
  have hlength : (packet 8 write.toString).length < 2 ^ 31 := by
    rw [length_packet]
    exact h
  exact ⟨(send_eq (by omega)).trans (TcpConnection.send_of_lt hlength), toString_send (by omega)⟩

/-! ## Several calls -/

section Several

variable {w : ℕ} {send : BinaryWriter → Option Bytes × BinaryWriter} (hsend : SendsPacket w send)
  (hw : w ≤ 8)

include hsend hw

/-- **What the calls send**, by induction on their number: the content first, then the header of the
packet before. -/
theorem sends_eq (n : ℕ) {write : BinaryWriter} (h : write.toString.length + w + 6 < 2 ^ 31) :
    sends send n write =
      (List.range n).map fun k => some (packet w ((header w)^[k] write.toString)) := by
  induction n generalizing write with
  | zero => rfl
  | succ n ih =>
    obtain ⟨hpacket, hheader⟩ := hsend write h
    have hnext := @ih (send write).2 (by rw [hheader, length_header]; omega)
    rw [sends, hpacket, hnext, hheader, List.range_succ_eq_map, List.map_cons, List.map_map]
    rfl

/-- **Which contents are sent to all.** -/
theorem sentToAll_iff (n : ℕ) {write : BinaryWriter} (h : write.toString.length + w + 6 < 2 ^ 31) :
    SentToAll w send n write ↔ n ≤ 1 ∨ write.toString = selfHeader w := by
  unfold SentToAll
  rw [sends_eq hsend hw n h, ← header_eq_self_iff]
  constructor
  · intro hall
    by_contra! hother
    obtain ⟨hn, hne⟩ := hother
    have hsecond := hall _ (List.mem_map_of_mem (List.mem_range.2 hn))
    exact hne (packet_injective (Option.some.inj hsecond))
  · intro hor frame hframe
    obtain ⟨k, hk, rfl⟩ := List.mem_map.1 hframe
    rcases hor with hn | hfixed
    · obtain rfl : k = 0 := by
        have hlt := List.mem_range.1 hk
        omega
      rfl
    · rw [Function.iterate_fixed hfixed]

end Several

/-- **The header is what goes out again.** While the packets are shorter than 2^31 bytes, the first of the
calls with one writer sends its content and each other one the header of the packet before, of the client
server and of the file server. All of them send the content exactly if there is one at most, or the
content is a header of itself. -/
theorem sends_packets (n : ℕ) (write : BinaryWriter) :
    (write.toString.length < 2 ^ 31 - 10 →
        sends TcpSession.send n write =
            (List.range n).map (fun k => some (packet 4 ((header 4)^[k] write.toString))) ∧
          (SentToAll 4 TcpSession.send n write ↔ n ≤ 1 ∨ write.toString = selfHeader 4)) ∧
      (write.toString.length < 2 ^ 31 - 14 →
        sends FileServer.TcpSession.send n write =
            (List.range n).map (fun k => some (packet 8 ((header 8)^[k] write.toString))) ∧
          (SentToAll 8 FileServer.TcpSession.send n write ↔
            n ≤ 1 ∨ write.toString = selfHeader 8)) := by
  refine ⟨fun h => ?_, fun h => ?_⟩
  · have hint : write.toString.length + 4 + 6 < 2 ^ 31 := by omega
    exact ⟨sends_eq TcpSession.sendsPacket (by decide) n hint,
      sentToAll_iff TcpSession.sendsPacket (by decide) n hint⟩
  · have hint : write.toString.length + 8 + 6 < 2 ^ 31 := by omega
    exact ⟨sends_eq FileServer.TcpSession.sendsPacket le_rfl n hint,
      sentToAll_iff FileServer.TcpSession.sendsPacket le_rfl n hint⟩

/-- A writer with two bytes. -/
def twoBytes : BinaryWriter := ⟨ascii "hi", 2⟩

/-- The content does not go out a second time. -/
theorem not_sentToAll :
    ¬ ∀ (n : ℕ) (write : BinaryWriter), SentToAll 4 TcpSession.send n write ∧
      SentToAll 8 FileServer.TcpSession.send n write := by
  intro h
  have hsent := (h 2 twoBytes).1
  rw [sentToAll_iff TcpSession.sendsPacket (by decide) 2 (by decide)] at hsent
  exact absurd hsent (by decide)

theorem sends_packets_hi :
    (sends TcpSession.send 2 twoBytes =
        (List.range 2).map (fun k => some (packet 4 ((header 4)^[k] twoBytes.toString))) ∧
      (SentToAll 4 TcpSession.send 2 twoBytes ↔ 2 ≤ 1 ∨ twoBytes.toString = selfHeader 4)) ∧
    (sends FileServer.TcpSession.send 2 twoBytes =
        (List.range 2).map (fun k => some (packet 8 ((header 8)^[k] twoBytes.toString))) ∧
      (SentToAll 8 FileServer.TcpSession.send 2 twoBytes ↔ 2 ≤ 1 ∨ twoBytes.toString = selfHeader 8)) :=
  ⟨(sends_packets 2 twoBytes).1 (by decide), (sends_packets 2 twoBytes).2 (by decide)⟩

end GraduationServer
