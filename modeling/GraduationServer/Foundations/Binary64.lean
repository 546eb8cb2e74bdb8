import GraduationServer.Foundations.Numerals
import Mathlib.Data.Int.Notation
import Mathlib.Tactic.Ring
import Mathlib.Tactic.NormNum

/-!
# Double-precision numbers

The IEEE 754 binary64 numbers a text can denote: finite ones as `m * 2 ^ e` with their sign, and the
two infinities.

* `ofRatio` rounds a quotient of natural numbers to the nearest double, ties to even, with gradual
  underflow below `2 ^ -1022` and infinity from `2 ^ 1024` on (`strtod`).
* `print17` is `printf("%.17g")`: the nearest decimal of 17 significant digits, in scientific
  notation unless its exponent is between -4 and 16, without trailing zeros.
-/

namespace GraduationServer

/-- A double that is not NaN. -/
inductive Binary64
  | finite (negative : Bool) (m : ℕ) (e : ℤ)
  | infinite (negative : Bool)
  deriving DecidableEq

namespace Binary64

/-- The quotient rounded to the nearest integer, ties to even. -/
def divRound (a b : ℕ) : ℕ :=
  let q := a / b
  let r := a % b
  if 2 * r < b ∨ (2 * r = b ∧ q % 2 = 0) then q else q + 1

/-- `a / b` as a quotient in units of `base ^ e`. -/
def inUnits (base a b : ℕ) (e : ℤ) : ℕ × ℕ :=
  if 0 ≤ e then (a, b * base ^ e.toNat) else (a * base ^ (-e).toNat, b)

/-- The greatest `t` with `2 ^ t ≤ a / b`. -/
def floorLog2 (a b : ℕ) : ℤ :=
  let k : ℤ := (Nat.log2 a : ℤ) - Nat.log2 b
  let (a', b') := inUnits 2 a b k
  if b' ≤ a' then k else k - 1

/-- The double nearest to `a / b`. -/
def ofRatio (negative : Bool) (a b : ℕ) : Binary64 :=
  if a = 0 then finite negative 0 0
  else
    let e := max (floorLog2 a b - 52) (-1074)
    let (a', b') := inUnits 2 a b e
    let m := divRound a' b'
    if 971 < e ∨ (e = 971 ∧ m = 2 ^ 53) then infinite negative else finite negative m e

/-- The double nearest to `n * 10 ^ k`. Beyond the range of the doubles the power need not be
computed: 400 decimal places are enough on either side. -/
def ofDecimal (negative : Bool) (n : ℕ) (k : ℤ) : Binary64 :=
  let len : ℤ := (numeral 10 n).length
  if n = 0 then finite negative 0 0
  else if 400 < k + len then infinite negative
  else if k + len < -400 then finite negative 0 0
  else if 0 ≤ k then ofRatio negative (n * 10 ^ k.toNat) 1
  else ofRatio negative n (10 ^ (-k).toNat)

/-- The absolute value of a finite double as a quotient. -/
def ratio (m : ℕ) (e : ℤ) : ℕ × ℕ := if 0 ≤ e then (m * 2 ^ e.toNat, 1) else (m, 2 ^ (-e).toNat)

/-- The integral part of the absolute value. -/
def trunc (m : ℕ) (e : ℤ) : ℕ := (ratio m e).1 / (ratio m e).2

/-- The absolute value is an integer (`modf` leaves no fraction). -/
def isIntegral (m : ℕ) (e : ℤ) : Bool := (ratio m e).1 % (ratio m e).2 = 0

/-- The 17 significant digits of a positive quotient whose first digit stands for `10 ^ x`, with the
exponent, which is greater by one when the digits are rounded up to eighteen. -/
def significantAt (a b : ℕ) (x : ℤ) : ℕ × ℤ :=
  let (a', b') := inUnits 10 a b (x - 16)
  let d := divRound a' b'
  if d = 10 ^ 17 then (10 ^ 16, x + 1) else (d, x)

/-- The decimal of 17 significant digits nearest to a positive quotient: its digits `d` and the
exponent `x`, for the number `d * 10 ^ (x - 16)`. -/
def significant17 (a b : ℕ) : ℕ × ℤ :=
  significantAt a b ((numeral 10 (a * 10 ^ 400 / b)).length - 401)

/-- A decimal point behind the first `k` digits, and no zeros at the end. -/
def pointAfter (k : ℕ) (digits : Bytes) : Bytes :=
  let fraction := ((digits.drop k).reverse.dropWhile (· = 0x30)).reverse
  digits.take k ++ if fraction = [] then [] else ascii "." ++ fraction

/-- `%.17g` of a finite double without its sign. -/
def printFinite (m : ℕ) (e : ℤ) : Bytes :=
  if m = 0 then ascii "0"
  else
    let (d, x) := significant17 (ratio m e).1 (ratio m e).2
    let digits := numeral 10 d
    if x < -4 ∨ 17 ≤ x then
      let exponent := numeral 10 x.natAbs
      pointAfter 1 digits ++ ascii (if x < 0 then "e-" else "e+") ++
        (if exponent.length < 2 then ascii "0" else []) ++ exponent
    else if x < 0 then pointAfter 1 (List.replicate (-x).toNat 0x30 ++ digits)
    else pointAfter (x.toNat + 1) digits

/-- `printf("%.17g")` of a finite double. -/
def print17 (negative : Bool) (m : ℕ) (e : ℤ) : Bytes :=
  (if negative then ascii "-" else []) ++ printFinite m e

/-! ## Sizes -/

theorem divRound_le (a b : ℕ) : divRound a b ≤ a / b + 1 := by
  simp only [divRound]
  split_ifs <;> omega

/-- A quotient below `base ^ k` in units of `base ^ e` is rounded to at most that power. -/
theorem divRound_le_of_lt {a b c : ℕ} (hb : b ≠ 0) (h : a < c * b) : divRound a b ≤ c := by
  have hlt : a / b < c := (Nat.div_lt_iff_lt_mul (Nat.pos_of_ne_zero hb)).2 h
  have hle := divRound_le a b
  omega

theorem inUnits_snd_ne_zero {base a b : ℕ} {e : ℤ} (hbase : base ≠ 0) (hb : b ≠ 0) :
    (inUnits base a b e).2 ≠ 0 := by
  unfold inUnits
  split
  · exact Nat.mul_ne_zero hb (Nat.pow_pos (Nat.pos_of_ne_zero hbase)).ne'
  · exact hb

/-- A quotient below `base ^ (k + e)` is below `base ^ k` in units of `base ^ e`. -/
theorem inUnits_lt {base a b i j k : ℕ} {e : ℤ} (hbase : base ≠ 0) (ha : a * base ^ i < b * base ^ j)
    (he : (j : ℤ) ≤ i + k + e) : (inUnits base a b e).1 < base ^ k * (inUnits base a b e).2 := by
  have hpos : 0 < base := Nat.pos_of_ne_zero hbase
  unfold inUnits
  split
  · next h =>
    have hle : b * base ^ j ≤ b * base ^ (i + k + e.toNat) :=
      Nat.mul_le_mul_left _ (Nat.pow_le_pow_right hpos (by omega))
    have hlt : a * base ^ i < base ^ k * (b * base ^ e.toNat) * base ^ i := by
      calc a * base ^ i < b * base ^ (i + k + e.toNat) := ha.trans_le hle
        _ = base ^ k * (b * base ^ e.toNat) * base ^ i := by ring
    exact lt_of_mul_lt_mul_right hlt (Nat.zero_le _)
  · next h =>
    have hle : b * base ^ (j + (-e).toNat) ≤ b * base ^ (i + k) :=
      Nat.mul_le_mul_left _ (Nat.pow_le_pow_right hpos (by omega))
    have hlt : a * base ^ (-e).toNat * base ^ i < base ^ k * b * base ^ i := by
      calc a * base ^ (-e).toNat * base ^ i = a * base ^ i * base ^ (-e).toNat := by ring
        _ < b * base ^ j * base ^ (-e).toNat :=
          Nat.mul_lt_mul_of_pos_right ha (Nat.pow_pos hpos)
        _ = b * base ^ (j + (-e).toNat) := by ring
        _ ≤ b * base ^ (i + k) := hle
        _ = base ^ k * b * base ^ i := by ring
    exact lt_of_mul_lt_mul_right hlt (Nat.zero_le _)

/-- The mantissa and the exponent of a rounded quotient. -/
theorem ofRatio_bounds {negative n : Bool} {a b m : ℕ} {e : ℤ} (hb : b ≠ 0)
    (h : ofRatio negative a b = finite n m e) : m ≤ 2 ^ 54 ∧ e ≤ 971 := by
  unfold ofRatio at h
  split at h
  · cases h
    decide
  · next ha =>
    dsimp only at h
    split at h
    · cases h
    · next hrange =>
      cases h
      refine ⟨divRound_le_of_lt (inUnits_snd_ne_zero two_ne_zero hb) ?_, by omega⟩
      have hlog : (Nat.log2 a : ℤ) - Nat.log2 b - 1 ≤ floorLog2 a b := by
        simp only [floorLog2]
        split_ifs <;> omega
      have hquotient : a * 2 ^ Nat.log2 b < b * 2 ^ (Nat.log2 a + 1) := by
        calc a * 2 ^ Nat.log2 b < 2 ^ (Nat.log2 a + 1) * 2 ^ Nat.log2 b :=
              Nat.mul_lt_mul_of_pos_right Nat.lt_log2_self (Nat.two_pow_pos _)
          _ ≤ 2 ^ (Nat.log2 a + 1) * b := Nat.mul_le_mul_left _ (Nat.log2_self_le hb)
          _ = b * 2 ^ (Nat.log2 a + 1) := Nat.mul_comm _ _
      exact inUnits_lt two_ne_zero hquotient (by push_cast; omega)

theorem ofDecimal_bounds {negative n : Bool} {a m : ℕ} {k e : ℤ}
    (h : ofDecimal negative a k = finite n m e) : m ≤ 2 ^ 54 ∧ e ≤ 971 := by
  simp only [ofDecimal] at h
  split_ifs at h
  · cases h
    decide
  · cases h
    decide
  · exact ofRatio_bounds one_ne_zero h
  · exact ofRatio_bounds (Nat.pow_pos (by decide)).ne' h

theorem significantAt_le {a b k : ℕ} (hb : b ≠ 0) (ha : a * 10 ^ 400 < b * 10 ^ k) :
    (significantAt a b (k - 401)).1 ≤ 10 ^ 17 := by
  unfold significantAt
  dsimp only
  split
  · exact Nat.pow_le_pow_right (by decide) (by decide)
  · refine divRound_le_of_lt (inUnits_snd_ne_zero (by decide) hb) ?_
    exact inUnits_lt (by decide) ha (by push_cast; omega)

theorem significantAt_exponent (a b : ℕ) (x : ℤ) :
    (significantAt a b x).2 = x ∨ (significantAt a b x).2 = x + 1 := by
  unfold significantAt
  dsimp only
  split
  · exact Or.inr rfl
  · exact Or.inl rfl

/-- There are at most 18 significant digits. -/
theorem significant17_le (a : ℕ) {b : ℕ} (hb : b ≠ 0) : (significant17 a b).1 ≤ 10 ^ 17 := by
  have hquotient := lt_pow_length_numeral (by decide : 1 < 10) (a * 10 ^ 400 / b)
  rw [Nat.div_lt_iff_lt_mul (Nat.pos_of_ne_zero hb), Nat.mul_comm _ b] at hquotient
  exact significantAt_le hb hquotient

theorem significant17_exponent {a k : ℕ} (b : ℕ) (ha : a * 10 ^ 400 < 10 ^ k) (hk : 0 < k) :
    -401 ≤ (significant17 a b).2 ∧ (significant17 a b).2 ≤ k := by
  have hlength := length_numeral_le (by decide) ((Nat.div_le_self _ b).trans_lt ha) hk
  have hexponent := significantAt_exponent a b ((numeral 10 (a * 10 ^ 400 / b)).length - 401)
  rw [← significant17] at hexponent
  generalize (significant17 a b).2 = x at hexponent ⊢
  omega

theorem length_pointAfter_le (k : ℕ) (digits : Bytes) :
    (pointAfter k digits).length ≤ digits.length + 1 := by
  have hfraction := ((digits.drop k).reverse.dropWhile_suffix fun c => c = 0x30).length_le
  simp only [List.length_reverse, List.length_drop] at hfraction
  have htake : (digits.take k).length = min k digits.length := List.length_take ..
  simp only [pointAfter]
  split
  · simp only [List.append_nil]
    omega
  · have hpoint : (ascii ".").length = 1 := rfl
    simp only [List.length_append, List.length_reverse, hpoint]
    omega

theorem mul_ten_pow_lt {a i : ℕ} (k : ℕ) (hi : i ≠ 0) (h : a ≤ 2 ^ i) :
    a * 10 ^ k < 10 ^ (i + k) := by
  rw [pow_add]
  have hlt : 2 ^ i < 10 ^ i := Nat.pow_lt_pow_left (by decide) hi
  exact Nat.mul_lt_mul_of_pos_right (h.trans_lt hlt) (Nat.pow_pos (by decide))

theorem ratio_le {m i j : ℕ} {e : ℤ} (hm : m ≤ 2 ^ i) (he : e ≤ j) :
    (ratio m e).1 ≤ 2 ^ (i + j) := by
  rw [pow_add]
  unfold ratio
  split
  · exact Nat.mul_le_mul hm (Nat.pow_le_pow_right two_pos (by omega))
  · exact hm.trans (Nat.le_mul_of_pos_right _ (Nat.two_pow_pos _))

theorem ratio_snd_ne_zero (m : ℕ) (e : ℤ) : (ratio m e).2 ≠ 0 := by
  unfold ratio
  split
  · exact one_ne_zero
  · exact (Nat.two_pow_pos _).ne'

theorem length_printFinite_le {m : ℕ} {e : ℤ} (hm : m ≤ 2 ^ 54) (he : e ≤ 971) :
    (printFinite m e).length ≤ 99 := by
  have hdigits := significant17_le (ratio m e).1 (ratio_snd_ne_zero m e)
  have hexponent := significant17_exponent (ratio m e).2
    (mul_ten_pow_lt 400 (by decide) (ratio_le hm he)) (by decide)
  unfold printFinite
  split
  · decide
  generalize significant17 (ratio m e).1 (ratio m e).2 = p at hdigits hexponent ⊢
  obtain ⟨d, x⟩ := p
  dsimp only at hdigits hexponent ⊢
  have hnumeral : (numeral 10 d).length ≤ 18 :=
    length_numeral_le (by decide) (hdigits.trans_lt (Nat.pow_lt_pow_right (by decide) (by decide)))
      (by decide)
  have hx : (numeral 10 x.natAbs).length ≤ 4 :=
    length_numeral_le (by decide) (by omega) (by decide)
  split
  · have hmark : (ascii (if x < 0 then "e-" else "e+")).length = 2 := by
      split <;> decide
    have hzero : (if (numeral 10 x.natAbs).length < 2 then ascii "0" else []).length ≤ 1 := by
      split <;> decide
    have hpoint := length_pointAfter_le 1 (numeral 10 d)
    simp only [List.length_append, hmark]
    omega
  · split
    · have hpoint := length_pointAfter_le 1 (List.replicate (-x).toNat 0x30 ++ numeral 10 d)
      rw [List.length_append, List.length_replicate] at hpoint
      omega
    · have hpoint := length_pointAfter_le (x.toNat + 1) (numeral 10 d)
      omega

/-- **The printed text of a double read from a text is short.** -/
theorem length_print17_le {negative : Bool} {m : ℕ} {e : ℤ} (hm : m ≤ 2 ^ 54) (he : e ≤ 971) :
    (print17 negative m e).length ≤ 100 := by
  have hsign : (if negative then ascii "-" else []).length ≤ 1 := by
    cases negative <;> decide
  have hfinite := length_printFinite_le hm he
  rw [print17, List.length_append]
  omega

end Binary64

end GraduationServer
