import GraduationServer.Foundations.Groups

/-!
# The binary reader

`BinaryReader` (`BinaryReader.h`, `BinaryReader.cpp`): a buffer and a 32-bit read index. A call
returns `false` and leaves its argument alone (`returns none`), returns `true` with the value read
(`returns (some _)`), reads a byte that is not in the buffer (`overread`), or lets the
`std::length_error` of `string::assign` escape (`throws`, when the decoded length is negative as an
`int`).

The string reader tests nothing: what it does is decided by `lengthLoop`, which `lengthLoop_eq`
relates to the number `readGroups` finds at the index.
-/

namespace GraduationServer

/-- The reader: `m_buffer` and `m_index`. -/
structure BinaryReader where
  buffer : Bytes
  index : UInt32 := 0
  deriving DecidableEq

namespace BinaryReader

/-- What a call of the reader does. -/
inductive Outcome (α : Type*)
  /-- The call returns: `none` is `false`, `some a` is `true` with `a` stored. -/
  | returns (data : Option α) (r : BinaryReader)
  /-- The call reads a byte outside the buffer. -/
  | overread
  /-- An exception leaves the call. -/
  | throws (r : BinaryReader)
  deriving DecidableEq

namespace Outcome

variable {α β : Type*}

/-- Apply a function to the value a call stores. -/
def map (f : α → β) : Outcome α → Outcome β
  | .returns data r => .returns (data.map f) r
  | .overread => .overread
  | .throws r => .throws r

end Outcome

/-- The index moved on by `n` bytes, in 32-bit arithmetic. -/
def advance (r : BinaryReader) (n : ℕ) : BinaryReader := { r with index := r.index + UInt32.ofNat n }

@[simp] theorem buffer_advance (r : BinaryReader) (n : ℕ) : (r.advance n).buffer = r.buffer := rfl

theorem toNat_index_advance (r : BinaryReader) (n : ℕ) :
    (r.advance n).index.toNat = (r.index.toNat + n) % 2 ^ 32 := by
  simp [advance, UInt32.toNat_add]

/-- The bytes from the index on. -/
def rest (r : BinaryReader) : Bytes := r.buffer.drop r.index.toNat

/-- `ReadInt32`: the bytes in host order. The test refuses a number that ends the buffer. -/
def readInt32 (r : BinaryReader) : Outcome (BitVec 32) :=
  if r.index.toNat + 4 ≥ r.buffer.length then .returns none r
  else .returns (some (BitVec.ofNat 32 (ofLeBytes (r.rest.take 4)))) (r.advance 4)

/-- `ReadData<T>` of a `w`-byte integer: the bytes in the opposite of host order. -/
def readData (r : BinaryReader) (w : ℕ) : Outcome (BitVec (8 * w)) :=
  if r.index.toNat + w > r.buffer.length then .returns none r
  else .returns (some (BitVec.ofNat _ (ofLeBytes (r.rest.take w).reverse))) (r.advance w)

/-- The loop of `ReadData<string>` over the bytes left, with the 32-bit `lenght` and the counter
`i`. It stops at a byte without the high bit or at the end of the buffer. -/
def lengthLoop : Bytes → BitVec 32 → ℕ → BitVec 32 × ℕ
  | [], lenght, i => (lenght, i)
  | b :: bs, lenght, i =>
    let lenght := lenght <<< 7 ||| (b &&& 0x7F).toBitVec.setWidth 32
    if b &&& 0x80 = 0 then (lenght, i) else lengthLoop bs lenght (i + 1)

/-- `ReadData<string>`. With the index past the buffer the loop already reads outside. -/
def readString (r : BinaryReader) : Outcome Bytes :=
  if r.buffer.length < r.index.toNat then .overread
  else
    let (lenght, i) := lengthLoop r.rest 0 0
    let r := r.advance (i + 1)
    if lenght.toInt < 0 then .throws r
    else if lenght.toNat = 0 ∨ r.index.toNat + lenght.toNat ≤ r.buffer.length then
      .returns (some (r.rest.take lenght.toNat)) (r.advance lenght.toNat)
    else .overread

/-! ## The decoded length -/

theorem and_mark_eq_zero_iff (b : UInt8) : b &&& 0x80 = 0 ↔ b.toNat < 128 := by
  have key : ∀ n : Fin 256, (UInt8.ofNat n &&& 0x80 = 0) ↔ (n : ℕ) < 128 := by decide +kernel
  simpa using key ⟨b.toNat, b.toNat_lt⟩

theorem toNat_low_bits (b : UInt8) : (b &&& 0x7F).toNat = b.toNat % 128 := by
  rw [UInt8.toNat_and, show (0x7F : UInt8).toNat = 2 ^ 7 - 1 by rfl, Nat.and_two_pow_sub_one_eq_mod]

/-- One step of the loop on the 32-bit accumulator: the group is appended, modulo `2 ^ 32`. -/
theorem shift_or_eq (acc : ℕ) (b : UInt8) :
    BitVec.ofNat 32 acc <<< 7 ||| (b &&& 0x7F).toBitVec.setWidth 32 =
      BitVec.ofNat 32 (acc * 128 + b.toNat % 128) := by
  have hb : (b &&& 0x7F).toBitVec.toNat = b.toNat % 128 := toNat_low_bits b
  have hlt : b.toNat % 128 < 2 ^ 7 := by omega
  apply BitVec.eq_of_toNat_eq
  rw [BitVec.toNat_or, BitVec.toNat_shiftLeft, BitVec.toNat_ofNat, BitVec.toNat_setWidth, hb,
    BitVec.toNat_ofNat, Nat.shiftLeft_eq, Nat.mod_eq_of_lt (show b.toNat % 128 < 2 ^ 32 by omega),
    show acc % 2 ^ 32 * 2 ^ 7 % 2 ^ 32 = 2 ^ 7 * (acc % 2 ^ 25) by omega,
    ← Nat.two_pow_add_eq_or_of_lt hlt]
  omega

/-- Where the buffer holds a terminated number the loop decodes it, modulo `2 ^ 32`, and stops at
its last group. -/
theorem lengthLoop_eq {bs : Bytes} {acc i v k : ℕ} (h : readGroups acc bs = some (v, k)) :
    lengthLoop bs (BitVec.ofNat 32 acc) i = (BitVec.ofNat 32 v, i + (k - 1)) := by
  induction bs generalizing acc i v k with
  | nil => simp [readGroups] at h
  | cons b bs ih =>
    simp only [readGroups] at h
    simp only [lengthLoop, and_mark_eq_zero_iff, shift_or_eq]
    split at h
    · next hb =>
      simp only [Option.some.injEq, Prod.mk.injEq] at h
      obtain ⟨rfl, rfl⟩ := h
      simp [hb]
    · next hb =>
      simp only [Option.map_eq_some_iff, Prod.mk.injEq, Prod.exists] at h
      obtain ⟨v', k', hr, rfl, rfl⟩ := h
      have := readGroups_bounds hr
      rw [if_neg hb, ih hr]
      congr 1
      omega

end BinaryReader

end GraduationServer
