import GraduationServer.Foundations.Search
import Mathlib.Data.List.TakeWhile

/-!
# Finding positions

The searching members of a C++ `string`: the position of the first byte that is among some
(`findFirstOf`) or that is not (`findFirstNotOf`), of the first occurrence of a text (`find`), and the
part from a position on (`substr`), which throws behind the end of the text.

A position that is found is in the text, so the parts before and behind it can be taken; they are what
`takeWhile` and `dropWhile` give (`substr_zero_of_findIdx?`, `substr_of_findIdx?`).
-/

namespace GraduationServer

variable {α : Type*}

/-- `substr`: from a position on, so many elements or all of them (`npos`). It throws when the position
is behind the end. -/
def substr (s : List α) (pos : ℕ) (n : Option ℕ) : Option (List α) :=
  if pos ≤ s.length then
    some (match n with
      | none => s.drop pos
      | some n => (s.drop pos).take n)
  else none

section Positions

/-! `q` holds of the elements that are passed over. -/

variable {p q : α → Bool} {s : List α} {i : ℕ}

/-- The text before a position that has been found. -/
theorem substr_zero_of_findIdx? (hq : ∀ c, q c = !p c) (h : s.findIdx? p = some i) :
    substr s 0 (some i) = some (s.takeWhile q) := by
  obtain rfl : q = fun c => !p c := funext hq
  obtain ⟨-, hi⟩ := List.findIdx?_eq_some_iff_findIdx_eq.1 h
  simp [substr, List.takeWhile_eq_take_findIdx_not, hi]

/-- The text from a position that has been found. -/
theorem substr_of_findIdx? (hq : ∀ c, q c = !p c) (h : s.findIdx? p = some i) :
    substr s i none = some (s.dropWhile q) := by
  obtain rfl : q = fun c => !p c := funext hq
  obtain ⟨hlt, hi⟩ := List.findIdx?_eq_some_iff_findIdx_eq.1 h
  simp [substr, hlt.le, List.dropWhile_eq_drop_findIdx_not, hi]

/-- The text behind the element at a position that has been found. -/
theorem substr_succ_of_findIdx? (hq : ∀ c, q c = !p c) (h : s.findIdx? p = some i) :
    substr s (i + 1) none = some ((s.dropWhile q).drop 1) := by
  obtain rfl : q = fun c => !p c := funext hq
  obtain ⟨hlt, hi⟩ := List.findIdx?_eq_some_iff_findIdx_eq.1 h
  simp [substr, Nat.succ_le_of_lt hlt, List.dropWhile_eq_drop_findIdx_not, hi]

theorem takeWhile_of_findIdx?_eq_none (hq : ∀ c, q c = !p c) (h : s.findIdx? p = none) :
    s.takeWhile q = s :=
  List.takeWhile_eq_self_iff.2 fun c hc => by rw [hq, List.findIdx?_eq_none_iff.1 h c hc, Bool.not_false]

theorem dropWhile_of_findIdx?_eq_none (hq : ∀ c, q c = !p c) (h : s.findIdx? p = none) :
    s.dropWhile q = [] :=
  List.dropWhile_eq_nil_iff.2 fun c hc => by rw [hq, List.findIdx?_eq_none_iff.1 h c hc, Bool.not_false]

end Positions

section Members

variable [DecidableEq α] {chars s : List α} {a : α}

/-- `find_first_of`. -/
def findFirstOf (chars s : List α) : Option ℕ := s.findIdx? fun c => chars.contains c

/-- `find_first_not_of`. -/
def findFirstNotOf (chars s : List α) : Option ℕ := s.findIdx? fun c => !chars.contains c

/-- `find`. -/
def find (pattern s : List α) : Option ℕ := (cut pattern s).map fun p => p.1.length

theorem findFirstOf_eq_none_iff : findFirstOf chars s = none ↔ ∀ c ∈ chars, c ∉ s := by
  rw [findFirstOf, List.findIdx?_eq_none_iff]
  simp only [List.contains_eq_mem, decide_eq_false_iff_not]
  exact ⟨fun h c hc hs => h c hs hc, fun h c hs hc => h c hc hs⟩

/-- A text of one element is found where the element is. -/
theorem find_singleton (a : α) (s : List α) : find [a] s = s.findIdx? (· = a) := by
  induction s with
  | nil => rfl
  | cons c s ih =>
    rw [find, cut, List.findIdx?_cons]
    by_cases hc : c = a
    · simp [hc]
    · have hbegin : ¬ [a] <+: c :: s := fun h => hc (List.cons_prefix_cons.1 h).1.symm
      rw [find] at ih
      simp only [hc, hbegin, if_false, decide_false, Bool.false_eq_true, ← ih, Option.map_map]
      rfl

/-- The text up to the first occurrence of an element, or all of it. -/
theorem substr_zero_find_singleton (a : α) (s : List α) :
    substr s 0 (find [a] s) = some (s.takeWhile (· ≠ a)) := by
  have hq : ∀ c, decide (c ≠ a) = !decide (c = a) := fun c => decide_not
  rw [find_singleton]
  cases hfind : s.findIdx? (· = a) with
  | none => rw [substr, if_pos (Nat.zero_le _), List.drop_zero, takeWhile_of_findIdx?_eq_none hq hfind]
  | some i => exact substr_zero_of_findIdx? hq hfind

end Members

end GraduationServer
