import GraduationServer.Foundations.Bytes
import GraduationServer.Foundations.DoubleArithmetic
import GraduationServer.Foundations.EditDistance
import GraduationServer.Foundations.Grids
import Mathlib.Data.Int.Notation
import Mathlib.Data.UInt

/-!
# The likeness of two texts

`levenshteinDistance` fills a table of `unsigned int`, the cell `d[i][j]` for the first `i` bytes of
the one text and the first `j` bytes of the other. Texts are taken to be shorter than
`2 ^ 32 - 1` bytes: the counters of the loops, which are `unsigned int` too, would never pass a
greater length.

* `DistanceTable.cell` is what the cell has to hold, the `distance` of the two prefixes, and
  `DistanceTable.Filled` says which cells hold it. Each round of the loops is one lemma about it.
* `levenshteinDistance_eq`: the result is the edit distance of the texts.
-/

namespace GraduationServer

namespace ClientSession

/-- `d[i][0] = i` -/
def initColumn (d : Grid UInt32) (i : ℕ) : Option (Grid UInt32) := d.write i 0 (UInt32.ofNat i)

/-- `d[0][i] = i` -/
def initRow (d : Grid UInt32) (i : ℕ) : Option (Grid UInt32) := d.write 0 i (UInt32.ofNat i)

/-- `std::min({d[i - 1][j] + 1, d[i][j - 1] + 1, d[i - 1][j - 1] + (s1[i - 1] == s2[j - 1] ? 0 : 1)})`
in `d[i][j]`. -/
def fillCell (s1 s2 : Bytes) (i : ℕ) (d : Grid UInt32) (j : ℕ) : Option (Grid UInt32) := do
  let above ← d.read (i - 1) j
  let left ← d.read i (j - 1)
  let diagonal ← d.read (i - 1) (j - 1)
  let a ← s1[i - 1]?
  let b ← s2[j - 1]?
  d.write i j (min (min (above + 1) (left + 1)) (diagonal + if a = b then 0 else 1))

/-- The inner loop. -/
def fillRow (s1 s2 : Bytes) (d : Grid UInt32) (i : ℕ) : Option (Grid UInt32) :=
  counted s2.length (fillCell s1 s2 i) d

/-- The edit distance of two texts, as an `int`; none if an index were out of range. -/
def levenshteinDistance (s1 s2 : Bytes) : Option ℤ := do
  let len1 := s1.length
  let len2 := s2.length
  let d ← (Grid.new (len1 + 1) (len2 + 1) (0 : UInt32)).write 0 0 0
  let d ← counted len1 initColumn d
  let d ← counted len2 initRow d
  let d ← counted len1 (fillRow s1 s2) d
  let result ← d.read len1 len2
  return Int.bmod result.toNat (2 ^ 32)

/-- The likeness of two texts, a `double`. -/
def similarity (s1 s2 : Bytes) : Option Binary64 := do
  let levDistance ← levenshteinDistance s1 s2
  let maxLen := Int.bmod (max s1.length s2.length) (2 ^ 32)
  if maxLen = 0 then return Binary64.one
  Binary64.sub Binary64.one (Binary64.ofQuotient levDistance maxLen)

end ClientSession

/-! ## The table -/

namespace DistanceTable

open ClientSession

variable (s1 s2 : Bytes)

/-- The edit distance of the first `i` bytes and the first `j` bytes, which the loops compare from
the last byte on. -/
def cell (i j : ℕ) : ℕ := distance (s1.take i).reverse (s2.take j).reverse

/-- The table has a cell for each two prefixes, and those of a region hold their distance. -/
def Filled (d : Grid UInt32) (region : ℕ → ℕ → Prop) : Prop :=
  d.Holds (s1.length + 1) (s2.length + 1) fun i j v => region i j → v.toNat = cell s1 s2 i j

variable {s1 s2}

theorem cell_zero_left {j : ℕ} (hj : j ≤ s2.length) : cell s1 s2 0 j = j := by
  simp [cell, hj]

theorem cell_zero_right {i : ℕ} (hi : i ≤ s1.length) : cell s1 s2 i 0 = i := by
  simp [cell, hi]

theorem cell_succ_succ {i j : ℕ} (hi : i < s1.length) (hj : j < s2.length) :
    cell s1 s2 (i + 1) (j + 1) =
      min (min (cell s1 s2 i (j + 1) + 1) (cell s1 s2 (i + 1) j + 1))
        (cell s1 s2 i j + cost s1[i] s2[j]) := by
  have hlast : ∀ {s : Bytes} {k : ℕ} (hk : k < s.length),
      (s.take (k + 1)).reverse = s[k] :: (s.take k).reverse := by
    intro s k hk
    rw [List.take_succ_eq_append_getElem hk, List.reverse_append, List.reverse_singleton,
      List.singleton_append]
  unfold cell
  rw [hlast hi, hlast hj, distance_cons_cons]

/-- A distance is at most the length of the longer text, so that no sum of the table wraps. -/
theorem cell_le (s1 s2 : Bytes) (i j : ℕ) : cell s1 s2 i j ≤ max s1.length s2.length := by
  have h := distance_le_max (s1.take i).reverse (s2.take j).reverse
  simp only [List.length_reverse, List.length_take] at h
  unfold cell
  omega

/-- The region grows by the cell that is written. -/
theorem Filled.write {d : Grid UInt32} {P Q : ℕ → ℕ → Prop} {i j : ℕ} {v : UInt32}
    (h : Filled s1 s2 d P) (hi : i ≤ s1.length) (hj : j ≤ s2.length)
    (hv : v.toNat = cell s1 s2 i j) (hQ : ∀ a b, Q a b → (a = i ∧ b = j) ∨ P a b) :
    ∃ d', d.write i j v = some d' ∧ Filled s1 s2 d' Q := by
  refine Grid.Holds.write h (by omega) (by omega) (fun _ => hv) fun a b w hne hw hab => hw ?_
  rcases hQ a b hab with ⟨rfl, rfl⟩ | hP
  · rcases hne with hne | hne <;> exact absurd rfl hne
  · exact hP

/-- A smaller region of the table. -/
theorem Filled.mono {d : Grid UInt32} {P Q : ℕ → ℕ → Prop} (h : Filled s1 s2 d P)
    (hQ : ∀ a ≤ s1.length, ∀ b ≤ s2.length, Q a b → P a b) : Filled s1 s2 d Q :=
  Grid.Holds.mono h fun a ha b hb v hv hab => hv (hQ a (by omega) b (by omega) hab)

theorem Filled.read {d : Grid UInt32} {P : ℕ → ℕ → Prop} {i j : ℕ} (h : Filled s1 s2 d P)
    (hi : i ≤ s1.length) (hj : j ≤ s2.length) (hP : P i j) :
    ∃ v, d.read i j = some v ∧ v.toNat = cell s1 s2 i j := by
  obtain ⟨v, hread, hv⟩ := h i (by omega) j (by omega)
  exact ⟨v, hread, hv hP⟩

theorem toNat_min (a b : UInt32) : (min a b).toNat = min a.toNat b.toNat := by
  have hmin : min a b = if a ≤ b then a else b := rfl
  rw [hmin]
  split
  · next h => exact (min_eq_left (UInt32.le_iff_toNat_le.1 h)).symm
  · next h => exact (min_eq_right (Nat.le_of_lt (UInt32.not_le.1 h))).symm

theorem toNat_add {a b : UInt32} (h : a.toNat + b.toNat < 2 ^ 32) :
    (a + b).toNat = a.toNat + b.toNat := by
  rw [UInt32.toNat_add, Nat.mod_eq_of_lt h]

section Short

variable (h1 : s1.length < 2 ^ 31 - 1) (h2 : s2.length < 2 ^ 31 - 1)

include h1 h2

/-- One round of the inner loop. -/
theorem fillCell_filled {d : Grid UInt32} {i j : ℕ} (hi : i < s1.length) (hj : j < s2.length)
    (h : Filled s1 s2 d fun a b => a = 0 ∨ b = 0 ∨ a ≤ i ∨ (a = i + 1 ∧ b ≤ j)) :
    ∃ d', fillCell s1 s2 (i + 1) d (j + 1) = some d' ∧
      Filled s1 s2 d' fun a b => a = 0 ∨ b = 0 ∨ a ≤ i ∨ (a = i + 1 ∧ b ≤ j + 1) := by
  obtain ⟨above, hreadAbove, habove⟩ := h.read (i := i) (j := j + 1) (by omega) (by omega) (by omega)
  obtain ⟨left, hreadLeft, hleft⟩ := h.read (i := i + 1) (j := j) (by omega) (by omega) (by omega)
  obtain ⟨diagonal, hreadDiagonal, hdiagonal⟩ :=
    h.read (i := i) (j := j) (by omega) (by omega) (by omega)
  have hcost : (if s1[i] = s2[j] then 0 else 1 : UInt32).toNat = cost s1[i] s2[j] := by
    unfold cost
    split <;> rfl
  have hvalue : (min (min (above + 1) (left + 1))
      (diagonal + if s1[i] = s2[j] then 0 else 1)).toNat = cell s1 s2 (i + 1) (j + 1) := by
    have hone := cost_le_one s1[i] s2[j]
    have hA := cell_le s1 s2 i (j + 1)
    have hL := cell_le s1 s2 (i + 1) j
    have hD := cell_le s1 s2 i j
    have hUnit : (1 : UInt32).toNat = 1 := rfl
    rw [toNat_min, toNat_min, toNat_add (by omega), toNat_add (by omega), toNat_add (by omega),
      habove, hleft, hdiagonal, hcost, hUnit, cell_succ_succ hi hj]
  obtain ⟨d', hwrite, hd'⟩ := h.write (Q := fun a b => a = 0 ∨ b = 0 ∨ a ≤ i ∨ (a = i + 1 ∧ b ≤ j + 1))
    (by omega) (by omega) hvalue (by omega)
  refine ⟨d', ?_, hd'⟩
  simp [fillCell, hreadAbove, hreadLeft, hreadDiagonal, hi, hj, hwrite]

/-- One round of the outer loop. -/
theorem fillRow_filled {d : Grid UInt32} {i : ℕ} (hi : i < s1.length)
    (h : Filled s1 s2 d fun a b => a = 0 ∨ b = 0 ∨ a ≤ i) :
    ∃ d', fillRow s1 s2 d (i + 1) = some d' ∧
      Filled s1 s2 d' fun a b => a = 0 ∨ b = 0 ∨ a ≤ i + 1 := by
  obtain ⟨d', hrun, hd'⟩ := exists_counted
    (fun j d => Filled s1 s2 d fun a b => a = 0 ∨ b = 0 ∨ a ≤ i ∨ (a = i + 1 ∧ b ≤ j))
    (h.mono (by omega)) fun j hj d hd => fillCell_filled h1 h2 hi hj hd
  exact ⟨d', hrun, hd'.mono (by omega)⟩

theorem toNat_ofNat_short {i : ℕ} (hi : i ≤ max s1.length s2.length) :
    (UInt32.ofNat i).toNat = i :=
  UInt32.toNat_ofNat_of_lt' (by have hsize : UInt32.size = 2 ^ 32 := rfl; omega)

/-- The first column. -/
theorem initColumn_filled {d : Grid UInt32} (h : Filled s1 s2 d fun a b => a = 0 ∧ b = 0) :
    ∃ d', counted s1.length initColumn d = some d' ∧ Filled s1 s2 d' fun _ b => b = 0 := by
  have hstep : ∀ i < s1.length, ∀ d, (Filled s1 s2 d fun a b => a ≤ i ∧ b = 0) →
      ∃ d', initColumn d (i + 1) = some d' ∧ Filled s1 s2 d' fun a b => a ≤ i + 1 ∧ b = 0 := by
    intro i hi d hd
    refine Filled.write hd hi (Nat.zero_le _) ?_ (by omega)
    rw [toNat_ofNat_short h1 h2 (by omega), cell_zero_right hi]
  obtain ⟨d', hrun, hd'⟩ := exists_counted _ (h.mono (by omega)) hstep
  exact ⟨d', hrun, hd'.mono (by omega)⟩

/-- The first row. -/
theorem initRow_filled {d : Grid UInt32} (h : Filled s1 s2 d fun _ b => b = 0) :
    ∃ d', counted s2.length initRow d = some d' ∧ Filled s1 s2 d' fun a b => a = 0 ∨ b = 0 := by
  have hstep : ∀ i < s2.length, ∀ d, (Filled s1 s2 d fun a b => (a = 0 ∧ b ≤ i) ∨ b = 0) →
      ∃ d', initRow d (i + 1) = some d' ∧
        Filled s1 s2 d' fun a b => (a = 0 ∧ b ≤ i + 1) ∨ b = 0 := by
    intro i hi d hd
    refine Filled.write hd (Nat.zero_le _) hi ?_ (by omega)
    rw [toNat_ofNat_short h1 h2 (by omega), cell_zero_left hi]
  obtain ⟨d', hrun, hd'⟩ := exists_counted _ (h.mono (by omega)) hstep
  exact ⟨d', hrun, hd'.mono (by omega)⟩

/-- **The table is filled with the distances:** the loops stay within the table and the texts, and
the last cell holds the edit distance of the whole texts. -/
theorem levenshteinDistance_eq :
    levenshteinDistance s1 s2 = some (distance s1 s2 : ℤ) := by
  have hnew : Filled s1 s2 (Grid.new (s1.length + 1) (s2.length + 1) 0) fun _ _ => False :=
    Grid.holds_new fun _ _ => False.elim
  obtain ⟨d0, hwrite, hd0⟩ := hnew.write (i := 0) (j := 0) (v := 0)
    (Q := fun a b => a = 0 ∧ b = 0) (Nat.zero_le _) (Nat.zero_le _) rfl fun a b => Or.inl
  obtain ⟨d1, hcolumn, hd1⟩ := initColumn_filled h1 h2 hd0
  obtain ⟨d2, hrow, hd2⟩ := initRow_filled h1 h2 hd1
  obtain ⟨d3, hfill, hd3⟩ := exists_counted
    (fun i d => Filled s1 s2 d fun a b => a = 0 ∨ b = 0 ∨ a ≤ i)
    (hd2.mono (by omega)) fun i hi _ => fillRow_filled h1 h2 hi
  have hcell : cell s1 s2 s1.length s2.length = distance s1 s2 := by
    rw [cell, List.take_length, List.take_length, distance_reverse]
  obtain ⟨v, hread, hv⟩ := hd3.read (i := s1.length) (j := s2.length) le_rfl le_rfl (by omega)
  rw [hcell] at hv
  have hle := distance_le_max s1 s2
  have hint : Int.bmod v.toNat (2 ^ 32) = (distance s1 s2 : ℤ) := by
    rw [hv, Int.bmod_eq_of_le] <;> omega
  simp only [levenshteinDistance, hwrite, hcolumn, hrow, hfill, hread, hint,
    Option.bind_eq_bind, Option.bind_some, Option.pure_def]

end Short

end DistanceTable

namespace ClientSession

/-- **The distance is the least number of edits:** for two texts of less than 2 ^ 31 - 1 bytes, the
result is the length of a script of insertions, deletions and substitutions of single bytes that
turns the one text into the other, and no script is shorter. -/
theorem levenshteinDistance_isLeast (s1 s2 : Bytes) (h1 : s1.length < 2 ^ 31 - 1)
    (h2 : s2.length < 2 ^ 31 - 1) :
    ∃ n : ℕ, levenshteinDistance s1 s2 = some (n : ℤ) ∧ IsLeast {k | Edits k s1 s2} n :=
  ⟨distance s1 s2, DistanceTable.levenshteinDistance_eq h1 h2, isLeast_distance s1 s2⟩

theorem levenshteinDistance_isLeast_example :
    ∃ n : ℕ, levenshteinDistance (ascii "kitten") (ascii "sitting") = some (n : ℤ) ∧
      IsLeast {k | Edits k (ascii "kitten") (ascii "sitting")} n :=
  levenshteinDistance_isLeast (ascii "kitten") (ascii "sitting") (by decide) (by decide)

example : levenshteinDistance [0x61, 0x62] [0x62, 0x63, 0x61] = some 3 := by decide

/-! ## The score -/

theorem bmod_maxLen {s1 s2 : Bytes} (h1 : s1.length < 2 ^ 31 - 1) (h2 : s2.length < 2 ^ 31 - 1) :
    Int.bmod (max s1.length s2.length) (2 ^ 32) = (max s1.length s2.length : ℕ) := by
  rw [Int.bmod_eq_of_le] <;> omega

theorem similarity_eq {s1 s2 : Bytes} (h1 : s1.length < 2 ^ 31 - 1) (h2 : s2.length < 2 ^ 31 - 1) :
    similarity s1 s2 =
      if max s1.length s2.length = 0 then some Binary64.one
      else Binary64.sub Binary64.one
        (Binary64.ofQuotient (distance s1 s2) (max s1.length s2.length : ℕ)) := by
  simp only [similarity, DistanceTable.levenshteinDistance_eq h1 h2, bmod_maxLen h1 h2,
    Option.bind_eq_bind, Option.bind_some, Int.natCast_eq_zero, Option.pure_def]

theorem similarity_comm {s1 s2 : Bytes} (h1 : s1.length < 2 ^ 31 - 1)
    (h2 : s2.length < 2 ^ 31 - 1) : similarity s1 s2 = similarity s2 s1 := by
  rw [similarity_eq h1 h2, similarity_eq h2 h1, distance_comm s1 s2, max_comm s1.length]

/-- The two roundings of the score, of the quotient and of the difference. -/
theorem exists_rounded {d n : ℕ} (hd : d ≤ n) (hn : 0 < n) :
    ∃ q r, (Binary64.sub Binary64.one (Binary64.ofQuotient d n)).bind Binary64.toRat = some r ∧
      Binary64.Respects (d / n) q ∧ Binary64.Respects (1 - q) r ∧ 0 ≤ q ∧ q ≤ 1 := by
  have hquotient0 : (0 : ℚ) ≤ d / n := by positivity
  have hquotient1 : (d : ℚ) / n ≤ 1 := by
    rw [div_le_one (by exact_mod_cast hn)]
    exact_mod_cast hd
  obtain ⟨q, hq, hqrespects⟩ := Binary64.toRat_ofRat hquotient0 hquotient1
  have hq0 := hqrespects.nonneg hquotient0
  have hq1 := hqrespects.le_one hquotient1
  obtain ⟨r, hr, hrrespects⟩ := Binary64.toRat_ofRat (sub_nonneg.2 hq1) (sub_le_self 1 hq0)
  refine ⟨q, r, ?_, hqrespects, hrrespects, hq0, hq1⟩
  simp only [Binary64.sub, Binary64.toRat_one, Binary64.ofQuotient, Int.cast_natCast, hq,
    Option.bind_eq_bind, Option.bind_some, Option.pure_def, hr]

/-- A quotient that is not zero is at least `2 ^ -31`. -/
theorem le_quotient {d n : ℕ} (hd : d ≠ 0) (hn : 0 < n) (hlt : n < 2 ^ 31) :
    ((2 ^ 21 : ℕ) : ℚ) / 2 ^ 52 ≤ d / n := by
  have hd1 : (1 : ℚ) ≤ d := by exact_mod_cast Nat.pos_of_ne_zero hd
  have hn31 : (n : ℚ) ≤ 2 ^ 31 := by exact_mod_cast hlt.le
  rw [div_le_div_iff₀ (by norm_num) (by exact_mod_cast hn)]
  push_cast
  linarith

/-- The score of texts that are not both empty. The quotient of the distance and the length is zero
or at least `2 ^ -31`, and rounding does not take the one into the other. -/
theorem exists_sub_ofQuotient {d n : ℕ} (hd : d ≤ n) (hn : 0 < n) (hlt : n < 2 ^ 31) :
    ∃ r, (Binary64.sub Binary64.one (Binary64.ofQuotient d n)).bind Binary64.toRat = some r ∧
      0 ≤ r ∧ r ≤ 1 ∧ (r = 1 ↔ d = 0) := by
  obtain ⟨q, r, hr, hqrespects, hrrespects, hq0, hq1⟩ := exists_rounded hd hn
  refine ⟨r, hr, hrrespects.nonneg (sub_nonneg.2 hq1), hrrespects.le_one (sub_le_self 1 hq0), ?_⟩
  constructor
  · intro hone
    by_contra hd0
    have hq : ((2 ^ 21 : ℕ) : ℚ) / 2 ^ 52 ≤ q := (hqrespects (2 ^ 21)).1 (le_quotient hd0 hn hlt)
    have hbelow : r ≤ ((2 ^ 52 - 2 ^ 21 : ℕ) : ℚ) / 2 ^ 52 := by
      apply (hrrespects (2 ^ 52 - 2 ^ 21)).2
      norm_num at hq ⊢
      linarith
    rw [hone] at hbelow
    norm_num at hbelow
  · rintro rfl
    have hq : q = 0 := hqrespects.eq_zero (by simp)
    exact hrrespects.eq_one (by rw [hq, sub_zero])

/-- **The similarity is a proper score:** read as a rational number it lies between zero and one, it
is the same for the texts in either order, and it is one for equal texts only. -/
theorem similarity_isScore (s1 s2 : Bytes) (h1 : s1.length < 2 ^ 31 - 1)
    (h2 : s2.length < 2 ^ 31 - 1) :
    ∃ r : ℚ, (similarity s1 s2).bind Binary64.toRat = some r ∧ 0 ≤ r ∧ r ≤ 1 ∧
      (similarity s2 s1).bind Binary64.toRat = some r ∧ (r = 1 ↔ s1 = s2) := by
  rw [similarity_comm h2 h1, similarity_eq h1 h2]
  split
  · next hempty =>
    have hs1 : s1 = [] := List.eq_nil_of_length_eq_zero (by omega)
    have hs2 : s2 = [] := List.eq_nil_of_length_eq_zero (by omega)
    exact ⟨1, Binary64.toRat_one, zero_le_one, le_rfl, Binary64.toRat_one, by simp [hs1, hs2]⟩
  · next hne =>
    obtain ⟨r, hr, h0, h1', heq⟩ := exists_sub_ofQuotient (distance_le_max s1 s2)
      (Nat.pos_of_ne_zero hne) (by omega)
    exact ⟨r, hr, h0, h1', hr, heq.trans distance_eq_zero⟩

theorem similarity_isScore_example :
    ∃ r : ℚ, (similarity (ascii "cat") (ascii "cart")).bind Binary64.toRat = some r ∧
      0 ≤ r ∧ r ≤ 1 ∧
      (similarity (ascii "cart") (ascii "cat")).bind Binary64.toRat = some r ∧
      (r = 1 ↔ ascii "cat" = ascii "cart") :=
  similarity_isScore (ascii "cat") (ascii "cart") (by decide) (by decide)

end ClientSession

end GraduationServer
