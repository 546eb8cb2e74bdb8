import GraduationServer.Foundations.Bytes
import Mathlib.Tactic.Ring
import Mathlib.Tactic.Linarith

/-!
# Words and group-coded numbers

Two ways of writing a number as bytes.

* `leBytes w n` is the object representation of a `w`-byte integer on a little-endian host;
  `ofLeBytes` reads it back (`ofLeBytes_leBytes`).
* `groupBytes n k started` writes the `k + 1` low groups of seven bits of `n`, the most significant
  first, every group but the last marked by the high bit; the leading zero groups are dropped until
  the number has `started`. `readGroups` reads such a number off the front of a byte string, and
  `readGroups_groupBytes` is the round trip, whatever follows.
-/

namespace GraduationServer

/-! ## Little-endian words -/

/-- The `w` bytes of `n` on a little-endian host. -/
def leBytes : ℕ → ℕ → Bytes
  | 0, _ => []
  | w + 1, n => UInt8.ofNat n :: leBytes w (n / 256)

/-- The number whose little-endian bytes are given. -/
def ofLeBytes : Bytes → ℕ
  | [] => 0
  | b :: bs => b.toNat + 256 * ofLeBytes bs

@[simp] theorem length_leBytes (w n : ℕ) : (leBytes w n).length = w := by
  induction w generalizing n with
  | zero => rfl
  | succ w ih => simp [leBytes, ih]

theorem ofLeBytes_leBytes (w n : ℕ) : ofLeBytes (leBytes w n) = n % 256 ^ w := by
  induction w generalizing n with
  | zero => simp [leBytes, ofLeBytes, Nat.mod_one]
  | succ w ih =>
    rw [leBytes, ofLeBytes, ih, pow_succ' 256, Nat.mod_mul, UInt8.toNat_ofNat']

theorem ofLeBytes_lt (bs : Bytes) : ofLeBytes bs < 256 ^ bs.length := by
  induction bs with
  | nil => simp [ofLeBytes]
  | cons b bs ih =>
    have := b.toNat_lt
    rw [ofLeBytes, List.length_cons, pow_succ']
    omega

theorem leBytes_ofLeBytes (bs : Bytes) : leBytes bs.length (ofLeBytes bs) = bs := by
  induction bs with
  | nil => rfl
  | cons b bs ih =>
    have hb := b.toNat_lt
    have hdiv : (b.toNat + 256 * ofLeBytes bs) / 256 = ofLeBytes bs := by omega
    have hmod : UInt8.ofNat (b.toNat + 256 * ofLeBytes bs) = b := by
      apply UInt8.toNat_inj.mp
      rw [UInt8.toNat_ofNat']
      omega
    rw [ofLeBytes, List.length_cons, leBytes, hdiv, hmod, ih]

/-! ## Groups of seven bits -/

/-- The number written in groups of seven bits at the front of a byte string, starting from the
value `acc` of the groups before, together with the number of groups; `none` when the string ends
before a group without the high bit. -/
def readGroups (acc : ℕ) : Bytes → Option (ℕ × ℕ)
  | [] => none
  | b :: bs =>
    let acc := acc * 128 + b.toNat % 128
    if b.toNat < 128 then some (acc, 1) else (readGroups acc bs).map fun p => (p.1, p.2 + 1)

/-- The `k + 1` low groups of `n`, the most significant first, without the leading zero groups when
nothing has been written yet. -/
def groupBytes (n : ℕ) : ℕ → Bool → Bytes
  | 0, _ => [UInt8.ofNat (n % 128)]
  | k + 1, started =>
    let c := n / 128 ^ (k + 1) % 128
    if c = 0 ∧ started = false then groupBytes n k false
    else UInt8.ofNat (c + 128) :: groupBytes n k true

theorem toNat_last_group (n : ℕ) : (UInt8.ofNat (n % 128)).toNat = n % 128 := by
  rw [UInt8.toNat_ofNat']
  omega

theorem toNat_marked_group (n : ℕ) : (UInt8.ofNat (n % 128 + 128)).toNat = n % 128 + 128 := by
  rw [UInt8.toNat_ofNat']
  omega

/-- A number below `128` is its one group. -/
theorem groupBytes_of_lt {n : ℕ} (h : n < 128) (k : ℕ) :
    groupBytes n k false = [UInt8.ofNat (n % 128)] := by
  induction k with
  | zero => rfl
  | succ k ih =>
    have hlt : n < 128 ^ (k + 1) := h.trans_le (Nat.le_self_pow (by omega) 128)
    rw [groupBytes, if_pos ⟨by rw [Nat.div_eq_of_lt hlt], rfl⟩, ih]

/-- The low `k + 1` groups of a number: its group `k + 1` followed by the groups below. -/
theorem mod_pow_succ_eq (n k : ℕ) :
    n % 128 ^ (k + 1 + 1) = n / 128 ^ (k + 1) % 128 * 128 ^ (k + 1) + n % 128 ^ (k + 1) := by
  rw [pow_succ 128 (k + 1), Nat.mod_mul]
  ring

/-- **Groups read back**: after the groups of value `acc`, the groups of the low part of `n` give
`acc` followed by that part, whatever bytes come next. -/
theorem readGroups_groupBytes (n k acc : ℕ) (started : Bool) (h : started = true ∨ acc = 0)
    (rest : Bytes) :
    readGroups acc (groupBytes n k started ++ rest) =
      some (acc * 128 ^ (k + 1) + n % 128 ^ (k + 1), (groupBytes n k started).length) := by
  induction k generalizing acc started with
  | zero =>
    simp only [groupBytes, List.cons_append, List.nil_append, readGroups, toNat_last_group]
    rw [if_pos (by omega)]
    simp
  | succ k ih =>
    rw [groupBytes]
    by_cases hz : n / 128 ^ (k + 1) % 128 = 0 ∧ started = false
    · rw [if_pos hz, ih acc false (by simpa [hz.2] using h), mod_pow_succ_eq, hz.1]
      simp [show acc = 0 by simpa [hz.2] using h]
    · rw [if_neg hz]
      simp only [List.cons_append, readGroups, toNat_marked_group]
      rw [if_neg (by omega), ih _ true (Or.inl rfl), mod_pow_succ_eq,
        show (n / 128 ^ (k + 1) % 128 + 128) % 128 = n / 128 ^ (k + 1) % 128 by omega]
      simp only [Option.map_some, List.length_cons]
      congr 2
      ring

/-- The groups read are at the front of the string. -/
theorem readGroups_bounds {acc : ℕ} {bs : Bytes} {v k : ℕ} (h : readGroups acc bs = some (v, k)) :
    0 < k ∧ k ≤ bs.length := by
  induction bs generalizing acc v k with
  | nil => simp [readGroups] at h
  | cons b bs ih =>
    simp only [readGroups] at h
    split at h
    · simp only [Option.some.injEq, Prod.mk.injEq] at h
      simp only [List.length_cons]
      omega
    · simp only [Option.map_eq_some_iff, Prod.mk.injEq, Prod.exists] at h
      obtain ⟨v', k', hr, -, rfl⟩ := h
      have := ih hr
      simp only [List.length_cons]
      omega

end GraduationServer
