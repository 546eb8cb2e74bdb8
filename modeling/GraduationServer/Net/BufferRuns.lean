import GraduationServer.Net.Buffer

/-!
# A buffer is a queue of bytes

The operations of `Buffer` (`net/Buffer.h`) as the inputs of a run. Whatever a run returns and leaves is
what a queue of bytes returns and leaves (`BufferOp.onQueue`); of a queue that is too long for an `int`,
`shrink` leaves what the cast of its length does. And a run succeeds whenever the queue
allows it and what is prepended fits into the room that is certain to be free: `kCheapPrepend` bytes at
first and after a shrink, more again for all that is retrieved, less for what is prepended, and the same
whatever is moved or grows in between (`BufferOp.onRoomyQueue`).

Integers go through a buffer in network order: what is appended is read in the order in which it was
appended, and a length that is prepended is read before what it is the length of.
-/

namespace GraduationServer

namespace Net

/-- The operations of a buffer. Bytes are read from a descriptor as they arrive. -/
inductive BufferOp
  | append (data : Bytes)
  | prepend (data : Bytes)
  | retrieve (len : ℕ)
  | retrieveAll
  | retrieveAsString (len : ℕ)
  | ensureWritableBytes (len : ℕ)
  | unwrite (len : ℕ)
  | shrink (reserve : ℕ)
  | readFd (arrived : Bytes)

namespace BufferOp

/-- An operation on a buffer, with the bytes that it returns. The system does not read more into the
buffer than it is asked for. There is no such operation where a sum of `makeSpace` could wrap, which has
64 bits: no bytes in memory are so many, but as many may be asked for. -/
def step (b : Buffer) : BufferOp → Option (Bytes × Buffer)
  | append data => some ([], b.append data)
  | prepend data => (b.prepend data).map fun b' => ([], b')
  | retrieve len => (b.retrieve len).map fun b' => ([], b')
  | retrieveAll => some ([], b.retrieveAll)
  | retrieveAsString len => b.retrieveAsString len
  | ensureWritableBytes len => if len < 2 ^ 63 then some ([], b.ensureWritableBytes len) else none
  | unwrite len => (b.unwrite len).map fun b' => ([], b')
  | shrink reserve =>
    if b.readableBytes + reserve < 2 ^ 63 then (b.shrink reserve).map fun b' => ([], b') else none
  | readFd arrived => if arrived.length ≤ b.readSize then some ([], b.readFd arrived) else none

/-! ## The queue -/

/-- The same on a queue of bytes. -/
def onQueue (q : Bytes) : BufferOp → Option (Bytes × Bytes)
  | append data => some ([], q ++ data)
  | prepend data => some ([], data ++ q)
  | retrieve len => if len ≤ q.length then some ([], q.drop len) else none
  | retrieveAll => some ([], [])
  | retrieveAsString len => if len ≤ q.length then some (q.take len, q.drop len) else none
  | ensureWritableBytes _ => some ([], q)
  | unwrite len => if len ≤ q.length then some ([], q.take (q.length - len)) else none
  | shrink _ => (Buffer.pieceOf q).map fun q' => ([], q')
  | readFd arrived => some ([], q ++ arrived)

/-- What is certain to be free in front of the queue behind an operation. -/
def room (room : ℕ) : BufferOp → ℕ
  | prepend data => room - data.length
  | retrieve len | retrieveAsString len => min kCheapPrepend (room + len)
  | retrieveAll | shrink _ => kCheapPrepend
  | append _ | ensureWritableBytes _ | unwrite _ | readFd _ => room

/-- What is asked of an operation beside what the queue asks. -/
def Fits (q : Bytes) (room : ℕ) : BufferOp → Prop
  | prepend data => data.length ≤ room
  | ensureWritableBytes len => len < 2 ^ 63
  | shrink reserve => q.length < 2 ^ 31 ∧ q.length + reserve < 2 ^ 63
  | readFd arrived => arrived.length ≤ extrabufSize
  | _ => True

instance (q : Bytes) (room : ℕ) : (op : BufferOp) → Decidable (op.Fits q room)
  | prepend _ | ensureWritableBytes _ | readFd _ => Nat.decLe _ _
  | shrink _ => inferInstanceAs (Decidable (_ ∧ _))
  | append _ | retrieve _ | retrieveAll | retrieveAsString _ | unwrite _ =>
    inferInstanceAs (Decidable True)

/-- An operation on a queue with an account of the room in front of it. -/
def onRoomyQueue (s : Bytes × ℕ) (op : BufferOp) : Option (Bytes × (Bytes × ℕ)) :=
  if op.Fits s.1 s.2 then (op.onQueue s.1).map fun p => (p.1, (p.2, op.room s.2)) else none

end BufferOp

namespace Buffer

open BufferOp

theorem content_unwrite {b b' : Buffer} {len : ℕ} (h : b.unwrite len = some b') :
    len ≤ b.content.length ∧ b'.content = b.content.take (b.content.length - len) ∧
      b'.prependableBytes = b.prependableBytes := by
  have hreader := b.reader_le
  rw [length_content]
  unfold unwrite at h
  split_ifs at h with hle
  cases h
  refine ⟨hle, ?_, rfl⟩
  unfold readableBytes at hle ⊢
  have hend : b.readerIndex + (b.writerIndex - b.readerIndex - len) = b.writerIndex - len := by omega
  rw [content, content, List.take_drop, List.take_take, hend, min_eq_left (Nat.sub_le _ _)]

theorem content_shrink {b b' : Buffer} {reserve : ℕ} (h : b.shrink reserve = some b') :
    pieceOf b.content = some b'.content ∧ kCheapPrepend ≤ b'.prependableBytes := by
  obtain ⟨str, hstr, rfl⟩ := Option.map_eq_some_iff.1 h
  refine ⟨hstr.trans (by simp), ?_⟩
  have hnew := room_ensureWritableBytes (new 1024) (b.readableBytes + reserve)
  exact le_trans (le_min le_rfl (by simpa [new, prependableBytes] using hnew)) (room_append _ _)

/-- At least the bytes of `extrabuf` are asked for. -/
theorem extrabufSize_le_readSize (b : Buffer) : extrabufSize ≤ b.readSize := by
  unfold readSize
  split <;> omega

/-- **What an operation does is what it does to the queue.** -/
theorem onQueue_of_step {b b' : Buffer} {op : BufferOp} {out : Bytes}
    (h : op.step b = some (out, b')) : op.onQueue b.content = some (out, b'.content) := by
  cases op with
  | append data =>
    cases h
    simp [onQueue]
  | prepend data =>
    obtain ⟨c, hc, hpair⟩ := Option.map_eq_some_iff.1 h
    cases hpair
    simp [onQueue, (prepend_eq_some hc).2.1]
  | retrieve len =>
    obtain ⟨c, hc, hpair⟩ := Option.map_eq_some_iff.1 h
    cases hpair
    obtain ⟨hle, hcontent, -⟩ := retrieve_eq_some hc
    simp [onQueue, hle, hcontent]
  | retrieveAll =>
    cases h
    simp [onQueue]
  | retrieveAsString len =>
    obtain ⟨c, hc, hpair⟩ := Option.map_eq_some_iff.1 h
    cases hpair
    obtain ⟨hle, hcontent, -⟩ := retrieve_eq_some hc
    simp [onQueue, hle, hcontent]
  | ensureWritableBytes len =>
    simp only [step, Option.ite_none_right_eq_some, Option.some.injEq, Prod.mk.injEq] at h
    obtain ⟨-, rfl, rfl⟩ := h
    simp [onQueue]
  | unwrite len =>
    obtain ⟨c, hc, hpair⟩ := Option.map_eq_some_iff.1 h
    cases hpair
    obtain ⟨hle, hcontent, -⟩ := content_unwrite hc
    simp [onQueue, hle, hcontent]
  | shrink reserve =>
    rw [step, Option.ite_none_right_eq_some] at h
    obtain ⟨c, hc, hpair⟩ := Option.map_eq_some_iff.1 h.2
    cases hpair
    simp [onQueue, (content_shrink hc).1]
  | readFd arrived =>
    simp only [step, Option.ite_none_right_eq_some, Option.some.injEq, Prod.mk.injEq] at h
    obtain ⟨-, rfl, rfl⟩ := h
    simp [onQueue]

/-- The content is the queue, and at least the room of the account is free in front of it. -/
structure Roomy (b : Buffer) (s : Bytes × ℕ) : Prop where
  content : b.content = s.1
  room : s.2 ≤ b.prependableBytes
  cheap : s.2 ≤ kCheapPrepend

theorem room_of_step {b b' : Buffer} {op : BufferOp} {out : Bytes} {room : ℕ}
    (h : op.step b = some (out, b')) (hroom : room ≤ b.prependableBytes)
    (hcheap : room ≤ kCheapPrepend) :
    op.room room ≤ b'.prependableBytes ∧ op.room room ≤ kCheapPrepend := by
  have hmin : room ≤ min kCheapPrepend b.prependableBytes := le_min hcheap hroom
  cases op with
  | append data =>
    cases h
    exact ⟨le_trans hmin (b.room_append data), hcheap⟩
  | prepend data =>
    obtain ⟨c, hc, hpair⟩ := Option.map_eq_some_iff.1 h
    cases hpair
    rw [(prepend_eq_some hc).2.2]
    exact ⟨Nat.sub_le_sub_right hroom _, le_trans (Nat.sub_le _ _) hcheap⟩
  | retrieve len | retrieveAsString len =>
    obtain ⟨c, hc, hpair⟩ := Option.map_eq_some_iff.1 h
    cases hpair
    refine ⟨le_trans (min_le_min_left _ (Nat.add_le_add_right hroom len)) ?_, min_le_left _ _⟩
    exact (retrieve_eq_some hc).2.2
  | retrieveAll =>
    cases h
    exact ⟨le_rfl, le_rfl⟩
  | ensureWritableBytes len =>
    simp only [step, Option.ite_none_right_eq_some, Option.some.injEq, Prod.mk.injEq] at h
    obtain ⟨-, rfl, rfl⟩ := h
    exact ⟨le_trans hmin (b.room_ensureWritableBytes len), hcheap⟩
  | unwrite len =>
    obtain ⟨c, hc, hpair⟩ := Option.map_eq_some_iff.1 h
    cases hpair
    rw [(content_unwrite hc).2.2]
    exact ⟨hroom, hcheap⟩
  | shrink reserve =>
    rw [step, Option.ite_none_right_eq_some] at h
    obtain ⟨c, hc, hpair⟩ := Option.map_eq_some_iff.1 h.2
    cases hpair
    exact ⟨(content_shrink hc).2, le_rfl⟩
  | readFd arrived =>
    simp only [step, Option.ite_none_right_eq_some, Option.some.injEq, Prod.mk.injEq] at h
    obtain ⟨-, rfl, rfl⟩ := h
    exact ⟨le_trans hmin (b.room_readFd arrived), hcheap⟩

/-- An operation that the queue allows and that fits does not fail. -/
theorem isSome_step {b : Buffer} {op : BufferOp} {room : ℕ} (hfits : op.Fits b.content room)
    (hroom : room ≤ b.prependableBytes) (hqueue : (op.onQueue b.content).isSome) :
    (op.step b).isSome := by
  cases op with
  | append data | retrieveAll => rfl
  | ensureWritableBytes len =>
    have hlt : len < 2 ^ 63 := hfits
    rw [step, if_pos hlt, Option.isSome_some]
  | prepend data =>
    rw [step, Option.isSome_map]
    exact isSome_prepend (le_trans hfits hroom)
  | retrieve len | retrieveAsString len =>
    simp only [step, retrieveAsString, Option.isSome_map]
    apply isSome_retrieve
    by_contra hlt
    simp [onQueue, hlt] at hqueue
  | unwrite len =>
    have hle : len ≤ b.readableBytes := by
      rw [← length_content]
      by_contra hlt
      simp [onQueue, hlt] at hqueue
    simp [step, unwrite, hle]
  | shrink reserve =>
    obtain ⟨hlt, hroom⟩ := hfits
    rw [length_content] at hroom
    rw [step, if_pos hroom, shrink, toStringPiece, pieceOf_of_lt hlt]
    rfl
  | readFd arrived =>
    have hle : arrived.length ≤ b.readSize := le_trans hfits b.extrabufSize_le_readSize
    simp [step, hle]

/-- An operation that the queue allows succeeds, when it fits. -/
theorem step_of_onRoomyQueue {b : Buffer} {s s' : Bytes × ℕ} {op : BufferOp} {out : Bytes}
    (hR : b.Roomy s) (h : op.onRoomyQueue s = some (out, s')) :
    ∃ b', op.step b = some (out, b') ∧ b'.Roomy s' := by
  obtain ⟨q, room⟩ := s
  obtain ⟨hcontent, hroom, hcheap⟩ := hR
  unfold onRoomyQueue at h
  split_ifs at h with hfits
  obtain ⟨⟨out', q'⟩, hqueue, hpair⟩ := Option.map_eq_some_iff.1 h
  cases hpair
  dsimp only at hcontent hroom hcheap hfits hqueue
  rw [← hcontent] at hfits hqueue
  obtain ⟨⟨out', b'⟩, hstep⟩ := Option.isSome_iff_exists.1
    (isSome_step hfits hroom (hqueue ▸ rfl))
  have hsame := (onQueue_of_step hstep).symm.trans hqueue
  cases hsame
  obtain ⟨hroom', hcheap'⟩ := room_of_step hstep hroom hcheap
  exact ⟨b', hstep, rfl, hroom', hcheap'⟩

/-- **A buffer is a queue of bytes.** Every run of operations returns what it returns on a queue, and
leaves as the content what it leaves of the queue. And every run succeeds that succeeds on a queue with an
account of the room for what is prepended. -/
theorem refines_queue (initialSize : ℕ) (ops : List BufferOp) :
    (∀ outs b, runs step (new initialSize) ops = some (outs, b) →
      runs onQueue [] ops = some (outs, b.content)) ∧
    (∀ outs q room, runs onRoomyQueue ([], kCheapPrepend) ops = some (outs, (q, room)) →
      ∃ b, runs step (new initialSize) ops = some (outs, b) ∧ b.content = q) := by
  constructor
  · intro outs b hrun
    obtain ⟨q, hq, rfl⟩ := runs_simulates (fun c q => c.content = q)
      (fun c q op out c' hc hstep => ⟨c'.content, hc ▸ onQueue_of_step hstep, rfl⟩)
      (content_new initialSize) hrun
    exact hq
  · intro outs q room hrun
    have hnew : (new initialSize).Roomy ([], kCheapPrepend) :=
      ⟨content_new initialSize, le_rfl, le_rfl⟩
    have hsim : ∀ (s : Bytes × ℕ) (c : Buffer) op out s', c.Roomy s →
        onRoomyQueue s op = some (out, s') → ∃ c', step c op = some (out, c') ∧ c'.Roomy s' :=
      fun _ _ _ _ _ => step_of_onRoomyQueue
    obtain ⟨b, hb, hR⟩ := runs_simulates (fun s c => Roomy c s) hsim hnew hrun
    exact ⟨b, hb, hR.content⟩

/-! ## Integers -/

/-- An integer of `w` bytes as it stands in a buffer: `hostToNetwork64`, `hostToNetwork32` and
`hostToNetwork16` put its bytes in the other order, and one byte is as it is. -/
def networkBytes (w : ℕ) (x : BitVec (8 * w)) : Bytes := leBytes w (hton w x).toNat

/-- `appendInt64`, `appendInt32`, `appendInt16` and `appendInt8`. -/
def appendInt (b : Buffer) (w : ℕ) (x : BitVec (8 * w)) : Buffer := b.append (networkBytes w x)

/-- `prependInt64`, `prependInt32`, `prependInt16` and `prependInt8`. -/
def prependInt (b : Buffer) (w : ℕ) (x : BitVec (8 * w)) : Option Buffer :=
  b.prepend (networkBytes w x)

/-- `peekInt64`, `peekInt32`, `peekInt16` and `peekInt8`. -/
def peekInt (b : Buffer) (w : ℕ) : Option (BitVec (8 * w)) :=
  if w ≤ b.readableBytes then some (hton w (BitVec.ofNat _ (ofLeBytes (b.content.take w)))) else none

/-- `readInt64`, `readInt32`, `readInt16` and `readInt8`. -/
def readInt (b : Buffer) (w : ℕ) : Option (BitVec (8 * w) × Buffer) :=
  (b.peekInt w).bind fun result => (b.retrieve w).map fun b' => (result, b')

@[simp] theorem length_networkBytes (w : ℕ) (x : BitVec (8 * w)) : (networkBytes w x).length = w :=
  length_leBytes w _

/-- The bytes are put in the other order twice. -/
theorem hton_hton (w : ℕ) (x : BitVec (8 * w)) : hton w (hton w x) = x := by
  apply BitVec.eq_of_toNat_eq
  have hx : x.toNat < 256 ^ w := two_pow_eight_mul w ▸ x.isLt
  rw [hton, leBytes_hton, List.reverse_reverse, ofLeBytes_leBytes, BitVec.toNat_ofNat,
    two_pow_eight_mul, Nat.mod_mod, Nat.mod_eq_of_lt hx]

theorem ofLeBytes_networkBytes (w : ℕ) (x : BitVec (8 * w)) :
    BitVec.ofNat (8 * w) (ofLeBytes (networkBytes w x)) = hton w x := by
  have hlt : (hton w x).toNat < 256 ^ w := two_pow_eight_mul w ▸ (hton w x).isLt
  rw [networkBytes, ofLeBytes_leBytes, Nat.mod_eq_of_lt hlt, BitVec.ofNat_toNat, BitVec.setWidth_eq]

/-- An integer at the front of the content is read. -/
theorem readInt_of_content {b : Buffer} {w : ℕ} {x : BitVec (8 * w)} {rest : Bytes}
    (h : b.content = networkBytes w x ++ rest) :
    ∃ b', b.retrieve w = some b' ∧ b.readInt w = some (x, b') := by
  have hlength : b.content.length = w + rest.length := by
    rw [h, List.length_append, length_networkBytes]
  have hle : w ≤ b.content.length := hlength ▸ Nat.le_add_right _ _
  obtain ⟨b', hb'⟩ := Option.isSome_iff_exists.1 (isSome_retrieve hle)
  have hfront : b.content.take w = networkBytes w x := by
    rw [h, List.take_left' (length_networkBytes w x)]
  have hpeek : b.peekInt w = some x := by
    have hle : w ≤ b.readableBytes := by
      rw [← length_content, hlength]
      exact Nat.le_add_right _ _
    rw [peekInt, if_pos hle, hfront, ofLeBytes_networkBytes, hton_hton]
  exact ⟨b', hb', by rw [readInt, hpeek, Option.bind_some, hb']; rfl⟩

end Buffer

/-- The operations of a buffer on integers. -/
inductive IntOp
  | append (x : Σ w, BitVec (8 * w))
  | prepend (x : Σ w, BitVec (8 * w))
  | read (w : ℕ)

namespace IntOp

/-- An operation on a buffer, with the integer that is read. -/
def step (b : Buffer) : IntOp → Option (Option (Σ w, BitVec (8 * w)) × Buffer)
  | append x => some (none, b.appendInt x.1 x.2)
  | prepend x => (b.prependInt x.1 x.2).map fun b' => (none, b')
  | read w => (b.readInt w).map fun p => (some ⟨w, p.1⟩, p.2)

/-- The same on a list of integers with an account of the room in front of them. What is read is the
first of them, as wide as it is. -/
def onIntegers (s : List (Σ w, BitVec (8 * w)) × ℕ) :
    IntOp → Option (Option (Σ w, BitVec (8 * w)) × (List (Σ w, BitVec (8 * w)) × ℕ))
  | append x => some (none, (s.1 ++ [x], s.2))
  | prepend x => if x.1 ≤ s.2 then some (none, (x :: s.1, s.2 - x.1)) else none
  | read w =>
    match s.1 with
    | [] => none
    | x :: xs => if x.1 = w then some (some x, (xs, min kCheapPrepend (s.2 + w))) else none

/-- Integers as they stand in a buffer. -/
def code (xs : List (Σ w, BitVec (8 * w))) : Bytes := xs.flatMap fun x => Buffer.networkBytes x.1 x.2

open Buffer

theorem step_of_onIntegers {b : Buffer} {s s' : List (Σ w, BitVec (8 * w)) × ℕ} {op : IntOp}
    {out : Option (Σ w, BitVec (8 * w))} (hR : b.Roomy (code s.1, s.2))
    (h : op.onIntegers s = some (out, s')) :
    ∃ b', op.step b = some (out, b') ∧ b'.Roomy (code s'.1, s'.2) := by
  obtain ⟨hcontent, hroom, hcheap⟩ := hR
  cases op with
  | append x =>
    cases h
    refine ⟨_, rfl, ?_, le_trans (le_min hcheap hroom) (b.room_append _), hcheap⟩
    rw [appendInt, content_append, hcontent]
    simp [code]
  | prepend x =>
    simp only [onIntegers, Option.ite_none_right_eq_some, Option.some.injEq, Prod.mk.injEq] at h
    obtain ⟨hfits, rfl, rfl⟩ := h
    have hle : (networkBytes x.1 x.2).length ≤ b.prependableBytes := by
      rw [length_networkBytes]
      exact le_trans hfits hroom
    obtain ⟨b', hb'⟩ := Option.isSome_iff_exists.1 (isSome_prepend hle)
    obtain ⟨-, hcontent', hroom'⟩ := prepend_eq_some hb'
    refine ⟨b', by rw [step, prependInt, hb']; rfl, ?_, ?_, le_trans (Nat.sub_le _ _) hcheap⟩
    · rw [hcontent', hcontent]
      rfl
    · rw [hroom', length_networkBytes]
      exact Nat.sub_le_sub_right hroom _
  | read w =>
    obtain ⟨xs, room⟩ := s
    cases xs with
    | nil => cases h
    | cons x xs =>
      simp only [onIntegers, Option.ite_none_right_eq_some, Option.some.injEq, Prod.mk.injEq] at h
      obtain ⟨rfl, rfl, rfl⟩ := h
      obtain ⟨b', hb', hread⟩ := readInt_of_content hcontent
      obtain ⟨-, hcontent', hroom'⟩ := retrieve_eq_some hb'
      refine ⟨b', by rw [step, hread]; rfl, ?_, ?_, min_le_left _ _⟩
      · rw [hcontent', hcontent]
        exact List.drop_left' (length_networkBytes x.1 x.2)
      · exact le_trans (min_le_min_left _ (Nat.add_le_add_right hroom x.1)) hroom'

/-- **Integers of every width come out of a buffer as they went in.** Appended, prepended and read in any
order, a buffer does what a list of integers does. -/
theorem runs_of_integers {ops : List IntOp} {outs : List (Option (Σ w, BitVec (8 * w)))}
    {xs : List (Σ w, BitVec (8 * w))} {room : ℕ} (initialSize : ℕ)
    (h : runs onIntegers ([], kCheapPrepend) ops = some (outs, (xs, room))) :
    ∃ b, runs step (new initialSize) ops = some (outs, b) ∧ b.content = code xs := by
  have hnew : (new initialSize).Roomy (code [], kCheapPrepend) :=
    ⟨content_new initialSize, le_rfl, le_rfl⟩
  obtain ⟨b, hb, hR⟩ := runs_simulates (fun s (c : Buffer) => c.Roomy (code s.1, s.2))
    (fun _ _ _ _ _ => step_of_onIntegers) hnew h
  exact ⟨b, hb, hR.content⟩

/-- A length is put in front of two integers, and all are read. -/
theorem runs_of_integers_example :
    ∃ b, runs step (new 1024)
        [.append ⟨8, 0x0102030405060708#64⟩, .append ⟨2, 0xFF00#16⟩, .prepend ⟨4, 10#32⟩, .read 4,
          .read 8, .read 2] =
      some ([none, none, none, some ⟨4, 10#32⟩, some ⟨8, 0x0102030405060708#64⟩,
        some ⟨2, 0xFF00#16⟩], b) ∧ b.content = code [] :=
  have hroom : runs onIntegers ([], kCheapPrepend)
      [.append ⟨8, 0x0102030405060708#64⟩, .append ⟨2, 0xFF00#16⟩, .prepend ⟨4, 10#32⟩, .read 4,
        .read 8, .read 2] =
      some ([none, none, none, some ⟨4, 10#32⟩, some ⟨8, 0x0102030405060708#64⟩,
        some ⟨2, 0xFF00#16⟩], ([], 8)) := by decide
  runs_of_integers 1024 hroom

end IntOp

end Net

end GraduationServer
