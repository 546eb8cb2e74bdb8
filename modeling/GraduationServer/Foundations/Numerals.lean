import GraduationServer.Foundations.Bytes
import Mathlib.Data.Nat.Digits.Defs
import Mathlib.Data.Nat.Digits.Lemmas

/-!
# Numerals

The text of a natural number in a base up to sixteen, and the number a text denotes: the numbers in
SQL and JSON texts and in HTTP headers and chunk sizes.

`ofNumeral_numeral` is the round trip. A numeral is never empty (`numeral_ne_nil`) and has digits of
its base only (`isDigit_of_mem_numeral`).
-/

namespace GraduationServer

/-- The digit of a value below sixteen, in lower case. -/
def digitChar (d : ℕ) : UInt8 := UInt8.ofNat (if d < 10 then 0x30 + d else 0x57 + d)

/-- The value of a digit of some base; 16 or more for a byte that is none. -/
def digitValue (c : UInt8) : ℕ :=
  if 0x30 ≤ c ∧ c ≤ 0x39 then c.toNat - 0x30
  else if 0x61 ≤ c ∧ c ≤ 0x66 then c.toNat - 0x57
  else if 0x41 ≤ c ∧ c ≤ 0x46 then c.toNat - 0x37
  else 16

/-- The digit belongs to the base. -/
def IsDigit (base : ℕ) (c : UInt8) : Prop := digitValue c < base

instance (base : ℕ) (c : UInt8) : Decidable (IsDigit base c) :=
  inferInstanceAs (Decidable (_ < _))

/-- The numeral of a number, without leading zeros. -/
def numeral (base n : ℕ) : Bytes :=
  if n = 0 then [digitChar 0] else (base.digits n).reverse.map digitChar

/-- The number of digits read from the left, behind digits already read. -/
def ofNumeralFrom (base n : ℕ) (s : Bytes) : ℕ := s.foldl (fun n c => base * n + digitValue c) n

/-- The number of a numeral. -/
def ofNumeral (base : ℕ) (s : Bytes) : ℕ := ofNumeralFrom base 0 s

theorem digitValue_digitChar {d : ℕ} (h : d < 16) : digitValue (digitChar d) = d := by
  interval_cases d <;> decide

theorem numeral_ne_nil {base : ℕ} (n : ℕ) : numeral base n ≠ [] := by
  unfold numeral
  split
  · simp
  · next hn => simpa using Nat.digits_ne_nil_iff_ne_zero.2 hn

theorem isDigit_of_mem_numeral {base n : ℕ} (hbase : 1 < base) (hle : base ≤ 16) {c : UInt8}
    (h : c ∈ numeral base n) : IsDigit base c := by
  unfold numeral at h
  split at h
  · rw [List.mem_singleton.1 h, IsDigit, digitValue_digitChar (by omega)]
    omega
  · obtain ⟨d, hd, rfl⟩ := List.mem_map.1 h
    have hlt := Nat.digits_lt_base hbase (List.mem_reverse.1 hd)
    rw [IsDigit, digitValue_digitChar (by omega)]
    exact hlt

/-- A number below a power of the base has a numeral no longer than the exponent. -/
theorem length_numeral_le {base n k : ℕ} (hbase : 1 < base) (hn : n < base ^ k) (hk : 0 < k) :
    (numeral base n).length ≤ k := by
  unfold numeral
  split
  · exact hk
  · rw [List.length_map, List.length_reverse]
    exact (Nat.digits_length_le_iff hbase n).2 hn

/-- A number is below the power of the base to the length of its numeral. -/
theorem lt_pow_length_numeral {base : ℕ} (hbase : 1 < base) (n : ℕ) :
    n < base ^ (numeral base n).length := by
  unfold numeral
  split
  · next hn =>
    rw [hn]
    exact Nat.pow_pos (by omega)
  · rw [List.length_map, List.length_reverse]
    exact Nat.lt_base_pow_length_digits hbase

theorem ofNumeralFrom_append (base n : ℕ) (s t : Bytes) :
    ofNumeralFrom base n (s ++ t) = ofNumeralFrom base (ofNumeralFrom base n s) t :=
  List.foldl_append

theorem ofNumeralFrom_map {base : ℕ} (n : ℕ) {ds : List ℕ} (h : ∀ d ∈ ds, d < 16) :
    ofNumeralFrom base n (ds.reverse.map digitChar) = n * base ^ ds.length + Nat.ofDigits base ds := by
  induction ds with
  | nil => simp [ofNumeralFrom, Nat.ofDigits]
  | cons d ds ih =>
    have ih := ih fun d hd => h d (List.mem_cons_of_mem _ hd)
    have hdigit : ofNumeralFrom base (n * base ^ ds.length + Nat.ofDigits base ds) [digitChar d] =
        base * (n * base ^ ds.length + Nat.ofDigits base ds) + d := by
      simp [ofNumeralFrom, digitValue_digitChar (h d (by simp))]
    rw [List.reverse_cons, List.map_append, ofNumeralFrom_append, ih, List.map_singleton, hdigit,
      Nat.ofDigits_cons, List.length_cons, pow_succ]
    ring

/-- **A numeral denotes its number.** -/
theorem ofNumeral_numeral {base : ℕ} (hbase : 1 < base) (hle : base ≤ 16) (n : ℕ) :
    ofNumeral base (numeral base n) = n := by
  unfold numeral
  split
  · next hn => simp [hn, ofNumeral, ofNumeralFrom, digitValue_digitChar]
  · rw [ofNumeral, ofNumeralFrom_map 0 fun d hd =>
      (Nat.digits_lt_base hbase hd).trans_le hle, Nat.ofDigits_digits]
    omega

/-- A number below the base is a single digit. -/
theorem numeral_of_lt {base n : ℕ} (hn : n < base) : numeral base n = [digitChar n] := by
  unfold numeral
  split
  · next hzero => rw [hzero]
  · next hzero => rw [Nat.digits_of_lt base n hzero hn, List.reverse_singleton, List.map_singleton]

/-- A numeral of two digits or more denotes a greater number in a greater base. -/
theorem lt_ofNumeral {base base' n : ℕ} (hbase : 1 < base) (hlt : base < base') (hle : base ≤ 16)
    (hn : base ≤ n) : n < ofNumeral base' (numeral base n) := by
  have hdigits := Nat.digits_def' hbase (n := n) (by omega)
  have htail : n / base ≤ Nat.ofDigits base' (base.digits (n / base)) := by
    calc n / base = Nat.ofDigits base (base.digits (n / base)) := (Nat.ofDigits_digits base _).symm
      _ ≤ Nat.ofDigits base' (base.digits (n / base)) := Nat.ofDigits_monotone _ hlt.le
  have hquot : 0 < n / base := Nat.div_pos hn (by omega)
  have hsplit := Nat.mod_add_div n base
  have hmul : base * (n / base) < base' * (n / base) := Nat.mul_lt_mul_of_pos_right hlt hquot
  have hmul' := Nat.mul_le_mul_left base' htail
  rw [ofNumeral, numeral, if_neg (by omega),
    ofNumeralFrom_map 0 fun d hd => (Nat.digits_lt_base hbase hd).trans_le hle, hdigits,
    Nat.ofDigits_cons]
  omega

end GraduationServer
