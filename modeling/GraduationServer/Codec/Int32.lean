import GraduationServer.Codec.RoundTrip

/-!
# Reading 32-bit integers

There are two ways to read an integer of four bytes: `ReadData<int32_t>`, and `ReadInt32`, which takes
the bytes in the order in which `WriteData<int32_t>` has put them. Their tests differ at one place: a
field that ends at the end of the buffer is refused by `ReadInt32` (`accepts_iff`).

So of the integers that have been written `ReadInt32` returns all but the last one (`readInts_concat`),
and only the empty list is read back (`readsBack_iff`).
-/

namespace GraduationServer

open BinaryWriter BinaryReader

/-- Integers written in order, as they are. -/
def writeInts (ints : List (BitVec 32)) (bw : BinaryWriter) : BinaryWriter :=
  ints.foldl (fun bw d => bw.writeData 4 d) bw

/-- So many calls of `ReadInt32`, and the reader behind them; `none` as soon as one returns `false`. -/
def readInts : ℕ → BinaryReader → Option (List (BitVec 32) × BinaryReader)
  | 0, r => some ([], r)
  | n + 1, r =>
    match r.readInt32 with
    | .returns (some d) r => (readInts n r).map fun p => (d :: p.1, p.2)
    | _ => none

/-- The call returns `true`. -/
def BinaryReader.Outcome.Accepts {α : Type*} (o : Outcome α) : Prop := ∃ a r, o = .returns (some a) r

/-- As many calls as there are integers return them, and one further call returns `false`. -/
def ReadsBack (ints : List (BitVec 32)) : Prop :=
  ∃ r, readInts ints.length ⟨(writeInts ints {}).buffer, 0⟩ = some (ints, r) ∧
    ¬ r.readInt32.Accepts

/-! ## The two tests -/

theorem readInt32_of_lt {r : BinaryReader} (h : r.index.toNat + 4 < r.buffer.length) :
    r.readInt32 = .returns (some (BitVec.ofNat 32 (ofLeBytes (r.rest.take 4)))) (r.advance 4) :=
  if_neg (not_le.2 h)

theorem readInt32_of_le {r : BinaryReader} (h : r.buffer.length ≤ r.index.toNat + 4) :
    r.readInt32 = .returns none r :=
  if_pos h

theorem accepts_readInt32 (r : BinaryReader) :
    r.readInt32.Accepts ↔ r.index.toNat + 4 < r.buffer.length := by
  rcases lt_or_ge (r.index.toNat + 4) r.buffer.length with h | h
  · rw [readInt32_of_lt h]
    exact iff_of_true ⟨_, _, rfl⟩ h
  · rw [readInt32_of_le h]
    refine iff_of_false ?_ (not_lt.2 h)
    rintro ⟨a, r', heq⟩
    cases heq

theorem accepts_readData (r : BinaryReader) (w : ℕ) :
    (r.readData w).Accepts ↔ r.index.toNat + w ≤ r.buffer.length := by
  unfold readData
  split
  · next h =>
    refine iff_of_false ?_ (not_le.2 h)
    rintro ⟨a, r', heq⟩
    cases heq
  · next h => exact iff_of_true ⟨_, _, rfl⟩ (not_lt.1 h)

/-- The two readers differ where a field ends the buffer, and only there. -/
theorem accepts_iff (r : BinaryReader) :
    (r.readInt32.Accepts ↔ (r.readData 4).Accepts) ↔ r.index.toNat + 4 ≠ r.buffer.length := by
  rw [accepts_readInt32, accepts_readData]
  omega

/-! ## Written integers -/

theorem length_buffer_writeData (bw : BinaryWriter) (w : ℕ) (d : BitVec (8 * w)) :
    (bw.writeData w d).buffer.length = bw.index.toNat + w := by
  have hresize : (resize bw.buffer (bw.index.toNat + w)).length = bw.index.toNat + w := by
    rw [resize, List.length_append, List.length_take, List.length_replicate]
    omega
  simp only [writeData, overwrite, List.length_append, List.length_take, List.length_drop, hresize,
    length_leBytes]
  omega

theorem index_writeInts (ints : List (BitVec 32)) (bw : BinaryWriter) :
    (writeInts ints bw).index = bw.index + UInt32.ofNat (4 * ints.length) := by
  induction ints generalizing bw with
  | nil => simp [writeInts]
  | cons d ints ih =>
    have hcons : writeInts (d :: ints) bw = writeInts ints (bw.writeData 4 d) := rfl
    have hindex : (bw.writeData 4 d).index = bw.index + UInt32.ofNat 4 := rfl
    have hlength : 4 * (d :: ints).length = 4 + 4 * ints.length := by
      rw [List.length_cons]
      omega
    rw [hcons, ih, hindex, hlength, UInt32.ofNat_add, UInt32.add_assoc]

/-- The last integer ends the buffer, whose length the index of 32 bits counts. -/
theorem length_buffer_writeInts (ints : List (BitVec 32)) (d : BitVec 32) :
    (writeInts (ints ++ [d]) {}).buffer.length = 4 * ints.length % 2 ^ 32 + 4 := by
  have hlast : writeInts (ints ++ [d]) {} = (writeInts ints {}).writeData 4 d := List.foldl_concat ..
  rw [hlast, length_buffer_writeData, index_writeInts, UInt32.toNat_add, UInt32.toNat_ofNat']
  simp

/-- Calls that all return `true` have stayed in front of the end of the buffer. -/
theorem lt_of_readInts {n k : ℕ} {r : BinaryReader} {p : List (BitVec 32) × BinaryReader}
    (h : readInts n r = some p) (hk : k < n) (hindex : r.index.toNat + 4 * k < 2 ^ 32) :
    r.index.toNat + 4 * k + 4 < r.buffer.length := by
  induction n generalizing r p k with
  | zero => cases hk
  | succ n ih =>
    rw [readInts] at h
    rcases lt_or_ge (r.index.toNat + 4) r.buffer.length with hlt | hge
    · rw [readInt32_of_lt hlt] at h
      obtain ⟨p', hp', -⟩ := Option.map_eq_some_iff.1 h
      cases k with
      | zero => exact hlt
      | succ k =>
        have hadvance : (r.advance 4).index.toNat = r.index.toNat + 4 := by
          rw [toNat_index_advance]
          omega
        have hnext := ih hp' (Nat.lt_of_succ_lt_succ hk) (by omega)
        rw [buffer_advance] at hnext
        omega
    · rw [readInt32_of_le hge] at h
      cases h

/-! ## Reading back -/

/-- **What is read back**: no integers, as the last of some integers ends the buffer. -/
theorem readsBack_iff (ints : List (BitVec 32)) : ReadsBack ints ↔ ints = [] := by
  constructor
  · rintro ⟨r, hread, -⟩
    rcases ints.eq_nil_or_concat with rfl | ⟨ints, d, rfl⟩
    · rfl
    · rw [List.concat_eq_append] at hread
      generalize hbuffer : (writeInts (ints ++ [d]) {}).buffer = buffer at hread
      have hlength := length_buffer_writeInts ints d
      have hzero : (BinaryReader.mk buffer 0).index.toNat = 0 := rfl
      rw [hbuffer] at hlength
      -- the call at the place of the last integer, also when the index has gone round
      have hplace := lt_of_readInts (k := 4 * ints.length % 2 ^ 32 / 4) hread
        (by rw [List.length_append, List.length_singleton]; omega) (by rw [hzero]; omega)
      dsimp only at hplace
      rw [hlength, hzero] at hplace
      omega
  · rintro rfl
    refine ⟨⟨[], 0⟩, rfl, ?_⟩
    rw [accepts_readInt32]
    exact Nat.not_lt_zero _

/-- Integers in front of something else are read. -/
theorem readInts_of_rest (ints : List (BitVec 32)) {r : BinaryReader} {post : Bytes}
    (h : r.rest = (ints.flatMap fun d => leBytes 4 d.toNat) ++ post) (hpost : post ≠ [])
    (hr : r.index.toNat ≤ r.buffer.length) (hlt : r.buffer.length < 2 ^ 32) :
    ∃ r', readInts ints.length r = some (ints, r') ∧ r'.buffer = r.buffer ∧
      r'.index.toNat = r.index.toNat + 4 * ints.length := by
  induction ints generalizing r with
  | nil => exact ⟨r, rfl, rfl, rfl⟩
  | cons d ints ih =>
    rw [List.flatMap_cons, List.append_assoc] at h
    have hlength := length_rest h hr
    have hpos := List.length_pos_iff.2 hpost
    rw [length_leBytes, List.length_append] at hlength
    have htake : r.rest.take 4 = leBytes 4 d.toNat := by
      rw [h, List.take_left' (length_leBytes ..)]
    have hback : BitVec.ofNat 32 (ofLeBytes (leBytes 4 d.toNat)) = d := by
      have hmod : d.toNat % 256 ^ 4 = d.toNat := Nat.mod_eq_of_lt d.isLt
      rw [ofLeBytes_leBytes, hmod, BitVec.ofNat_toNat, BitVec.setWidth_eq]
    have hadvance : (r.advance 4).index.toNat = r.index.toNat + 4 := by
      rw [toNat_index_advance]
      omega
    have hrest := rest_advance h (by rw [length_leBytes]; omega)
    rw [length_leBytes] at hrest
    obtain ⟨r', hread, hbuffer, hindex⟩ := ih hrest (by rw [hadvance, buffer_advance]; omega) hlt
    refine ⟨r', ?_, hbuffer, ?_⟩
    · rw [List.length_cons, readInts, readInt32_of_lt (by omega), htake, hback]
      dsimp only
      rw [hread, Option.map_some]
    · rw [hindex, hadvance, List.length_cons]
      omega

theorem buffer_writeInts (ints : List (BitVec 32)) {bw : BinaryWriter} (h : bw.WellIndexed)
    (hlt : bw.buffer.length + 4 * ints.length < 2 ^ 32) :
    (writeInts ints bw).buffer = bw.buffer ++ ints.flatMap fun d => leBytes 4 d.toNat := by
  induction ints generalizing bw with
  | nil => simp [writeInts]
  | cons d ints ih =>
    rw [List.length_cons] at hlt
    have hnext := wellIndexed_writeData h 4 d (by omega)
    have hbuffer := buffer_writeData h 4 d
    have hcons : writeInts (d :: ints) bw = writeInts ints (bw.writeData 4 d) := rfl
    rw [hcons, ih hnext (by rw [hbuffer, List.length_append, length_leBytes]; omega), hbuffer,
      List.append_assoc, List.flatMap_cons]

/-- **All integers but the last one are read**, and that one is refused by `ReadInt32` only. -/
theorem readInts_concat (ints : List (BitVec 32)) (d : BitVec 32)
    (hlt : 4 * (ints.length + 1) < 2 ^ 32) :
    ∃ r, readInts ints.length ⟨(writeInts (ints ++ [d]) {}).buffer, 0⟩ = some (ints, r) ∧
      ¬ r.readInt32.Accepts ∧ (r.readData 4).Accepts := by
  have hbuffer : (writeInts (ints ++ [d]) {}).buffer =
      (ints.flatMap fun d => leBytes 4 d.toNat) ++ leBytes 4 d.toNat := by
    rw [buffer_writeInts _ wellIndexed_empty (by simpa using hlt), List.flatMap_append,
      List.flatMap_singleton, List.nil_append]
  have hlength := length_buffer_writeInts ints d
  have hlast : leBytes 4 d.toNat ≠ [] :=
    List.ne_nil_of_length_pos (by rw [length_leBytes]; exact Nat.succ_pos 3)
  obtain ⟨r, hread, hbuffer', hindex⟩ := @readInts_of_rest ints
    ⟨(writeInts (ints ++ [d]) {}).buffer, 0⟩ (leBytes 4 d.toNat) hbuffer hlast (Nat.zero_le _)
    (by rw [hlength]; omega)
  have hzero : (BinaryReader.mk (writeInts (ints ++ [d]) {}).buffer 0).index.toNat = 0 := rfl
  refine ⟨r, hread, ?_, ?_⟩
  · rw [accepts_readInt32, hbuffer', hindex, hlength, hzero]
    omega
  · rw [accepts_readData, hbuffer', hindex, hlength, hzero]
    omega

/-- **When `ReadInt32` undoes `WriteData`:** for the empty list only, and it accepts where
`ReadData<int32_t>` does exactly where the field does not end at the end of the buffer. -/
theorem readsBack_and_accepts_iff (ints : List (BitVec 32)) (r : BinaryReader) :
    (ReadsBack ints ↔ ints = []) ∧
      ((r.readInt32.Accepts ↔ (r.readData 4).Accepts) ↔ r.index.toNat + 4 ≠ r.buffer.length) :=
  ⟨readsBack_iff ints, accepts_iff r⟩

/-- One integer is not read back, as it ends the buffer. -/
theorem not_readsBack_and_accepts :
    ¬ ((∀ ints, ReadsBack ints) ∧
      ∀ r : BinaryReader, r.readInt32.Accepts ↔ (r.readData 4).Accepts) := by
  rintro ⟨hreads, -⟩
  cases (readsBack_iff [7]).1 (hreads [7])

end GraduationServer
