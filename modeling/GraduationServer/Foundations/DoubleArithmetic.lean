import GraduationServer.Foundations.Binary64
import Mathlib.Algebra.Order.Field.Rat
import Mathlib.Tactic.FieldSimp
import Mathlib.Tactic.Linarith
import Mathlib.Tactic.Positivity

/-!
# Arithmetic of doubles

The operations of IEEE 754 on finite doubles: the exact rational result, rounded to the nearest
double. Up to one the doubles contain the multiples of `2 ^ -52`, and rounding does not move a number
past one of them (`toRat_ofRat`).
-/

namespace GraduationServer

namespace Binary64

/-- The rational number a finite double is. -/
def toRat : Binary64 → Option ℚ
  | finite negative m e => some ((if negative then -1 else 1) * (m * 2 ^ e))
  | infinite _ => none

/-- The double nearest to a rational number. -/
def ofRat (r : ℚ) : Binary64 := ofRatio (decide (r < 0)) r.num.natAbs r.den

/-- The difference of two finite doubles. -/
def sub (x y : Binary64) : Option Binary64 := do
  let a ← x.toRat
  let b ← y.toRat
  return ofRat (a - b)

/-- `static_cast<double>(a) / b` of two `int`, each of them a double exactly. -/
def ofQuotient (a b : ℤ) : Binary64 := ofRat ((a : ℚ) / (b : ℚ))

/-- The literal `1.0`. -/
def one : Binary64 := ofRat 1

theorem le_divRound {a b c : ℕ} (hb : b ≠ 0) (h : c * b ≤ a) : c ≤ divRound a b := by
  have hle : c ≤ a / b := (Nat.le_div_iff_mul_le (Nat.pos_of_ne_zero hb)).2 h
  simp only [divRound]
  split_ifs <;> omega

theorem divRound_le_of_le {a b c : ℕ} (hb : b ≠ 0) (h : a ≤ c * b) : divRound a b ≤ c := by
  rcases h.lt_or_eq with hlt | rfl
  · exact divRound_le_of_lt hb hlt
  · have hpos := Nat.pos_of_ne_zero hb
    simp [divRound, hpos]

/-- A quotient up to one has units no greater than `2 ^ -52`. -/
theorem ofRatio_of_le {a b : ℕ} (ha : a ≠ 0) (hab : a ≤ b) :
    ∃ n : ℕ, 52 ≤ n ∧ ofRatio false a b = finite false (divRound (a * 2 ^ n) b) (-(n : ℤ)) := by
  have hlog : Nat.log2 a ≤ Nat.log2 b := by
    rw [Nat.log2_eq_log_two, Nat.log2_eq_log_two]
    exact Nat.log_mono_right hab
  have hfloor : floorLog2 a b ≤ 0 := by
    simp only [floorLog2]
    split_ifs <;> omega
  unfold ofRatio
  rw [if_neg ha]
  generalize he : max (floorLog2 a b - 52) (-1074) = e
  refine ⟨(-e).toNat, by omega, ?_⟩
  have hunits : inUnits 2 a b e = (a * 2 ^ (-e).toNat, b) := if_neg (by omega)
  have hsmall : ∀ m, ¬(971 < e ∨ (e = 971 ∧ m = 2 ^ 53)) := by omega
  have hexponent : -((-e).toNat : ℤ) = e := by omega
  dsimp only
  rw [hunits, hexponent]
  exact if_neg (hsmall _)

/-- Each multiple of `2 ^ -52` that bounds `r` bounds `v` too. -/
def Respects (r v : ℚ) : Prop := ∀ k : ℕ,
  ((k : ℚ) / 2 ^ 52 ≤ r → (k : ℚ) / 2 ^ 52 ≤ v) ∧ (r ≤ (k : ℚ) / 2 ^ 52 → v ≤ (k : ℚ) / 2 ^ 52)

namespace Respects

variable {r v : ℚ} (h : Respects r v)

include h

theorem nonneg (hr : 0 ≤ r) : 0 ≤ v := by
  have hzero := (h 0).1
  rw [Nat.cast_zero, zero_div] at hzero
  exact hzero hr

theorem eq_zero (hr : r = 0) : v = 0 := by
  have hzero := (h 0).2
  rw [Nat.cast_zero, zero_div] at hzero
  exact le_antisymm (hzero hr.le) (h.nonneg hr.ge)

theorem le_one (hr : r ≤ 1) : v ≤ 1 := by
  have hone := (h (2 ^ 52)).2
  norm_num at hone
  exact hone hr

theorem eq_one (hr : r = 1) : v = 1 := by
  have hone := (h (2 ^ 52)).1
  norm_num at hone
  exact le_antisymm (h.le_one hr.le) (hone hr.ge)

end Respects

/-- **Rounding respects the multiples of `2 ^ -52` up to one.** -/
theorem toRat_ofRatio {a b : ℕ} (hb : b ≠ 0) (hab : a ≤ b) :
    ∃ v, (ofRatio false a b).toRat = some v ∧ Respects (a / b) v := by
  have hbpos : (0 : ℚ) < b := by exact_mod_cast Nat.pos_of_ne_zero hb
  by_cases ha : a = 0
  · refine ⟨0, by simp [ha, ofRatio, toRat], fun k => ⟨fun h => by simpa [ha] using h, fun _ => ?_⟩⟩
    positivity
  · obtain ⟨n, hn, hround⟩ := ofRatio_of_le ha hab
    obtain ⟨i, rfl⟩ := Nat.exists_eq_add_of_le hn
    refine ⟨divRound (a * 2 ^ (52 + i)) b / 2 ^ (52 + i), ?_, fun k => ?_⟩
    · rw [hround, toRat, zpow_neg, zpow_natCast, div_eq_mul_inv]
      simp
    · -- in units of `2 ^ -n` the multiple is the integer `k * 2 ^ i`
      have hmultiple : (k : ℚ) / 2 ^ 52 = (k * 2 ^ i : ℕ) / 2 ^ (52 + i) := by
        push_cast
        rw [pow_add]
        field_simp
      have hpow : (0 : ℚ) < 2 ^ (52 + i) := by positivity
      rw [hmultiple, div_le_div_iff_of_pos_right hpow, div_le_div_iff_of_pos_right hpow,
        div_le_div_iff₀ hpow hbpos, div_le_div_iff₀ hbpos hpow]
      norm_cast
      exact ⟨le_divRound hb, divRound_le_of_le hb⟩

theorem toRat_ofRat {r : ℚ} (h0 : 0 ≤ r) (h1 : r ≤ 1) :
    ∃ v, (ofRat r).toRat = some v ∧ Respects r v := by
  have hnum : ((r.num.natAbs : ℕ) : ℚ) / r.den = r := by
    have habs : ((r.num.natAbs : ℤ) : ℚ) = (r.num : ℚ) :=
      congrArg _ (Int.natAbs_of_nonneg (Rat.num_nonneg.2 h0))
    rw [← Int.cast_natCast, habs, Rat.num_div_den]
  have hle : r.num.natAbs ≤ r.den := by
    have hden : (0 : ℚ) < r.den := by exact_mod_cast r.den_pos
    rw [← hnum, div_le_one hden] at h1
    exact_mod_cast h1
  obtain ⟨v, hv, hk⟩ := toRat_ofRatio r.den_nz hle
  rw [hnum] at hk
  refine ⟨v, ?_, hk⟩
  have hsign : decide (r < 0) = false := decide_eq_false (not_lt.2 h0)
  rw [ofRat, hsign]
  exact hv

theorem toRat_one : one.toRat = some 1 := by
  obtain ⟨v, hv, hrespects⟩ := toRat_ofRat zero_le_one (le_refl (1 : ℚ))
  rw [one, hv, hrespects.eq_one rfl]

end Binary64

end GraduationServer
