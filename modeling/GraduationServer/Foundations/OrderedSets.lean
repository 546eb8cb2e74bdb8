import Mathlib.Data.List.Sort
import Mathlib.Tactic.Common

/-!
# Ordered sets

A set of the elements of a linear order is kept as a list in ascending order, without repetition
(`Ascending`). A new element is inserted where it belongs, the least element is the first one, and the
elements below a bound are the front of the list.
-/

namespace GraduationServer

namespace OrderedSet

variable {α : Type*} [LinearOrder α] {a b : α} {l : List α}

/-- A list in ascending order, without repetition. -/
abbrev Ascending (l : List α) : Prop := l.Pairwise (· < ·)

theorem Ascending.nodup (h : Ascending l) : l.Nodup := h.imp ne_of_lt

/-- The first element is the least. -/
theorem Ascending.head_le (h : Ascending l) (hhead : l.head? = some a) (hb : b ∈ l) : a ≤ b := by
  cases l with
  | nil => cases hhead
  | cons c l =>
    obtain rfl : c = a := by simpa using hhead
    rcases List.mem_cons.1 hb with rfl | hb
    · exact le_rfl
    · exact ((List.pairwise_cons.1 h).1 b hb).le

/-- **A new element is inserted where it belongs.** -/
theorem Ascending.orderedInsert (h : Ascending l) (ha : a ∉ l) :
    Ascending (l.orderedInsert (· ≤ ·) a) := by
  have hnodup : (l.orderedInsert (· ≤ ·) a).Nodup :=
    (List.perm_orderedInsert _ a l).nodup_iff.2 (List.nodup_cons.2 ⟨ha, h.nodup⟩)
  have hsorted : (l.orderedInsert (· ≤ ·) a).Pairwise (· ≤ ·) :=
    List.Pairwise.orderedInsert a l (h.imp le_of_lt)
  exact (hsorted.and hnodup).imp fun hab => lt_of_le_of_ne hab.1 hab.2

/-- An element that is inserted comes first, or the first element stays. -/
theorem head_orderedInsert (a : α) (l : List α) :
    (l.orderedInsert (· ≤ ·) a).head? = some (l.head?.elim a fun b => min a b) := by
  cases l with
  | nil => rfl
  | cons b l =>
    rw [List.orderedInsert_cons]
    split_ifs with hle
    · simp [min_eq_left hle]
    · simp [min_eq_right (le_of_not_ge hle)]

/-- What a bound cuts off of an ascending list is what is below it. -/
theorem Ascending.mem_takeWhile (h : Ascending l) (bound : α) :
    a ∈ l.takeWhile (· < bound) ↔ a ∈ l ∧ a < bound := by
  induction l with
  | nil => simp
  | cons b l ih =>
    obtain ⟨hb, hl⟩ := List.pairwise_cons.1 h
    by_cases hlt : b < bound
    · rw [List.takeWhile_cons_of_pos (by simpa using hlt), List.mem_cons, List.mem_cons, ih hl]
      constructor
      · rintro (rfl | ⟨ha, hbound⟩)
        · exact ⟨.inl rfl, hlt⟩
        · exact ⟨.inr ha, hbound⟩
      · rintro ⟨rfl | ha, hbound⟩
        · exact .inl rfl
        · exact .inr ⟨ha, hbound⟩
    · rw [List.takeWhile_cons_of_neg (by simpa using hlt)]
      constructor
      · intro ha
        cases ha
      · rintro ⟨ha, hbound⟩
        rcases List.mem_cons.1 ha with rfl | ha
        · exact absurd hbound hlt
        · exact absurd ((hb a ha).trans hbound) hlt

/-- What is left behind the cut is not below the bound. -/
theorem Ascending.le_of_mem_dropWhile (h : Ascending l) {bound : α}
    (ha : a ∈ l.dropWhile (· < bound)) : bound ≤ a := by
  by_contra hlt
  have hnodup := h.nodup
  rw [← List.takeWhile_append_dropWhile (p := (· < bound)) (l := l)] at hnodup
  have hmem : a ∈ l := (List.dropWhile_sublist _).subset ha
  have htake : a ∈ l.takeWhile (· < bound) := (h.mem_takeWhile bound).2 ⟨hmem, not_le.1 hlt⟩
  exact (List.nodup_append.1 hnodup).2.2 a htake a ha rfl

end OrderedSet

end GraduationServer
