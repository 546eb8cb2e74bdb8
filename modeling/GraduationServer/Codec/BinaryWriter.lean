import GraduationServer.Foundations.Groups

/-!
# The binary writer

`BinaryWriter` (`BinaryReader.h`, `BinaryReader.cpp`): a buffer and a 32-bit write index. An integer
is copied at the index in host order, after the buffer is resized to end behind it; a string is
appended at the end of the buffer behind its length in groups of seven bits (`compress`).

`compress_eq` gives the length prefix of every length below `2 ^ 35` as `groupBytes`, so the general
facts on groups apply to it. `WellIndexed` is the invariant that the index is the buffer's size;
under it each write appends (`buffer_writeData`, `buffer_writeString`).
-/

namespace GraduationServer

/-- `std::string::resize`: cut, or extended by zero bytes. -/
def resize (s : Bytes) (n : ℕ) : Bytes := s.take n ++ List.replicate (n - s.length) 0

/-- `memcpy` of `bs` over the bytes of `s` from position `i` on. -/
def overwrite (s : Bytes) (i : ℕ) (bs : Bytes) : Bytes := s.take i ++ bs ++ s.drop (i + bs.length)

theorem overwrite_resize_length (s bs : Bytes) :
    overwrite (resize s (s.length + bs.length)) s.length bs = s ++ bs := by
  have htake : s.take (s.length + bs.length) = s := List.take_of_length_le (by omega)
  simp only [overwrite, resize, htake, show s.length + bs.length - s.length = bs.length by omega]
  rw [List.take_left, List.drop_of_length_le (by simp), List.append_nil]

/-- An integer of `w` bytes with its bytes in the other order: `htonl` and `htons` on a
little-endian host. -/
def hton (w : ℕ) (d : BitVec (8 * w)) : BitVec (8 * w) :=
  BitVec.ofNat _ (ofLeBytes (leBytes w d.toNat).reverse)

def htonl : BitVec 32 → BitVec 32 := hton 4

def htons : BitVec 16 → BitVec 16 := hton 2

theorem two_pow_eight_mul (w : ℕ) : 2 ^ (8 * w) = 256 ^ w := by
  rw [pow_mul, show 2 ^ 8 = 256 by rfl]

theorem leBytes_hton (w : ℕ) (d : BitVec (8 * w)) :
    leBytes w (hton w d).toNat = (leBytes w d.toNat).reverse := by
  have hlt := ofLeBytes_lt (leBytes w d.toNat).reverse
  have hback := leBytes_ofLeBytes (leBytes w d.toNat).reverse
  rw [List.length_reverse, length_leBytes] at hlt hback
  rw [hton, BitVec.toNat_ofNat, two_pow_eight_mul, Nat.mod_eq_of_lt hlt, hback]

/-- The writer: `m_buffer` and `m_index`. -/
structure BinaryWriter where
  buffer : Bytes := []
  index : UInt32 := 0
  deriving DecidableEq

namespace BinaryWriter

/-- `WriteData<T>` of a `w`-byte integer. -/
def writeData (bw : BinaryWriter) (w : ℕ) (d : BitVec (8 * w)) : BinaryWriter where
  buffer := overwrite (resize bw.buffer (bw.index.toNat + w)) bw.index.toNat (leBytes w d.toNat)
  index := bw.index + UInt32.ofNat w

/-- The loop of `Compress`: the groups `i - 1, …, 0` of the length. A zero group is skipped while
nothing has been written. -/
def compressLoop (len : ℕ) : ℕ → Bytes → Bytes
  | 0, out => out
  | i + 1, out =>
    let c := UInt8.ofNat ((len >>> (7 * i)) &&& 0x7F)
    if c = 0 ∧ out = [] then compressLoop len i out
    else compressLoop len i (out ++ [if 0 < i then c ||| 0x80 else c])

/-- `Compress`: the length in groups of seven bits, at most five of them. -/
def compress (len : ℕ) (out : Bytes) : Bytes :=
  if len < 128 then out ++ [UInt8.ofNat len &&& 0x7F] else compressLoop len 5 out

/-- `WriteData<string>`. -/
def writeString (bw : BinaryWriter) (data : Bytes) : BinaryWriter :=
  let out := compress data.length []
  let bw := { buffer := bw.buffer ++ out, index := bw.index + UInt32.ofNat out.length }
  if 0 < data.length then
    { buffer := bw.buffer ++ data, index := bw.index + UInt32.ofNat data.length }
  else bw

/-! ## The length prefix -/

theorem toNat_group (len i : ℕ) :
    (UInt8.ofNat ((len >>> (7 * i)) &&& 0x7F)).toNat = len / 128 ^ i % 128 := by
  rw [UInt8.toNat_ofNat', show (0x7F : ℕ) = 2 ^ 7 - 1 by rfl, Nat.and_two_pow_sub_one_eq_mod,
    Nat.shiftRight_eq_div_pow, pow_mul, show 2 ^ 7 = 128 by rfl]
  omega

theorem or_mark (c : UInt8) (h : c.toNat < 128) : c ||| 0x80 = UInt8.ofNat (c.toNat + 128) := by
  apply UInt8.toNat_inj.mp
  rw [UInt8.toNat_or, UInt8.toNat_ofNat', show (0x80 : UInt8).toNat = 2 ^ 7 * 1 by rfl, Nat.or_comm,
    ← Nat.two_pow_add_eq_or_of_lt h]
  omega

theorem eq_zero_iff_toNat (c : UInt8) : c = 0 ↔ c.toNat = 0 := by
  rw [← UInt8.toNat_inj]
  rfl

/-- From group `k` on the loop appends the groups of `groupBytes`, unless every one of them is a
leading zero. -/
theorem compressLoop_eq (len k : ℕ) (out : Bytes) (h : out ≠ [] ∨ len % 128 ^ (k + 1) ≠ 0) :
    compressLoop len (k + 1) out = out ++ groupBytes len k (decide (out ≠ [])) := by
  induction k generalizing out with
  | zero =>
    rw [compressLoop, groupBytes, if_neg]
    · simp only [compressLoop, lt_irrefl, if_false]
      congr 2
      apply UInt8.toNat_inj.mp
      rw [toNat_group, toNat_last_group]
      simp
    · rw [eq_zero_iff_toNat, toNat_group]
      simp only [pow_zero, Nat.div_one, zero_add, pow_one] at h ⊢
      tauto
  | succ k ih =>
    have hc : (UInt8.ofNat ((len >>> (7 * (k + 1))) &&& 0x7F)).toNat = len / 128 ^ (k + 1) % 128 :=
      toNat_group len (k + 1)
    have hskip : UInt8.ofNat ((len >>> (7 * (k + 1))) &&& 0x7F) = 0 ∧ out = [] ↔
        len / 128 ^ (k + 1) % 128 = 0 ∧ decide (out ≠ []) = false := by
      rw [eq_zero_iff_toNat, hc]
      simp
    rw [compressLoop, groupBytes]
    simp only [hskip, Nat.succ_pos, if_true]
    split
    · next hz =>
      obtain rfl : out = [] := by simpa using hz.2
      rw [mod_pow_succ_eq, hz.1] at h
      rw [ih [] (by simpa using h)]
      simp
    · rw [or_mark _ (by rw [hc]; omega), hc, ih _ (Or.inl (by simp))]
      simp

/-- **The length prefix**: below `2 ^ 35` the prefix is the length in groups of seven bits. -/
theorem compress_eq {len : ℕ} (h : len < 2 ^ 35) : compress len [] = groupBytes len 4 false := by
  rw [compress]
  split
  · next hlt =>
    have hand : UInt8.ofNat len &&& 0x7F = UInt8.ofNat (len % 128) := by
      apply UInt8.toNat_inj.mp
      rw [toNat_last_group, UInt8.toNat_and, show (0x7F : UInt8).toNat = 2 ^ 7 - 1 by rfl,
        Nat.and_two_pow_sub_one_eq_mod, UInt8.toNat_ofNat']
      omega
    rw [groupBytes_of_lt hlt, hand, List.nil_append]
  · next hge =>
    rw [compressLoop_eq len 4 [] (Or.inr _)]
    · simp
    · rw [show 128 ^ (4 + 1) = 2 ^ 35 by rfl, Nat.mod_eq_of_lt h]
      omega

/-! ## Every write appends -/

/-- The index is the size of the buffer. -/
def WellIndexed (bw : BinaryWriter) : Prop := bw.index.toNat = bw.buffer.length

theorem wellIndexed_empty : WellIndexed {} := rfl

theorem toNat_index_add {i : UInt32} {n m : ℕ} (hi : i.toNat = n) (h : n + m < 2 ^ 32) :
    (i + UInt32.ofNat m).toNat = n + m := by
  rw [UInt32.toNat_add, UInt32.toNat_ofNat', hi]
  omega

theorem buffer_writeData {bw : BinaryWriter} (h : bw.WellIndexed) (w : ℕ) (d : BitVec (8 * w)) :
    (bw.writeData w d).buffer = bw.buffer ++ leBytes w d.toNat := by
  have := overwrite_resize_length bw.buffer (leBytes w d.toNat)
  rw [length_leBytes] at this
  simpa [writeData, show bw.index.toNat = bw.buffer.length from h] using this

theorem wellIndexed_writeData {bw : BinaryWriter} (h : bw.WellIndexed) (w : ℕ)
    (d : BitVec (8 * w)) (hlt : bw.buffer.length + w < 2 ^ 32) :
    (bw.writeData w d).WellIndexed := by
  rw [WellIndexed, buffer_writeData h, List.length_append, length_leBytes]
  exact toNat_index_add h hlt

theorem buffer_writeString (bw : BinaryWriter) (data : Bytes) :
    (bw.writeString data).buffer = bw.buffer ++ (compress data.length [] ++ data) := by
  rw [writeString]
  split
  · simp
  · next h => simp [List.length_eq_zero_iff.1 (Nat.eq_zero_of_not_pos h)]

theorem wellIndexed_writeString {bw : BinaryWriter} (h : bw.WellIndexed) (data : Bytes)
    (hlt : (bw.writeString data).buffer.length < 2 ^ 32) : (bw.writeString data).WellIndexed := by
  rw [WellIndexed, buffer_writeString]
  rw [buffer_writeString] at hlt
  simp only [List.length_append] at hlt ⊢
  rw [writeString]
  split
  · rw [toNat_index_add (toNat_index_add h (by omega)) (by omega)]
    omega
  · rw [toNat_index_add h (by omega)]
    omega

end BinaryWriter

end GraduationServer
