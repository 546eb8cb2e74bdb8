import Mathlib.Order.Bounds.Basic
import Mathlib.Order.MinMax
import Mathlib.Tactic.Common

/-!
# Edit distance

The least number of single insertions, deletions and substitutions that turn one list into another.

* `Edit` is one edit anywhere in a list, `Edits n` a script of `n` edits.
* `distance` is the recurrence on the first elements. `isLeast_distance`: it is the least length of a
  script. The way there is `Alignment`, a script read from left to right: alignments compose
  (`Alignment.trans`), so each script is one, and the recurrence is the cheapest alignment.
* `distance_comm`, `distance_reverse`, `distance_le_max` and `distance_eq_zero` are what follows for
  the distance as a measure of two lists.
-/

namespace GraduationServer

variable {α : Type*}

/-- One edit: an element is inserted, deleted or replaced somewhere in the list. -/
inductive Edit : List α → List α → Prop
  | insertion (l r : List α) (b : α) : Edit (l ++ r) (l ++ b :: r)
  | deletion (l r : List α) (a : α) : Edit (l ++ a :: r) (l ++ r)
  | substitution (l r : List α) (a b : α) : Edit (l ++ a :: r) (l ++ b :: r)

/-- A script of `n` edits, one after another. -/
inductive Edits : ℕ → List α → List α → Prop
  | nil (s : List α) : Edits 0 s s
  | cons {n : ℕ} {s t u : List α} : Edit s t → Edits n t u → Edits (n + 1) s u

theorem Edit.cons {s t : List α} (a : α) : Edit s t → Edit (a :: s) (a :: t)
  | .insertion l r b => .insertion (a :: l) r b
  | .deletion l r c => .deletion (a :: l) r c
  | .substitution l r c b => .substitution (a :: l) r c b

theorem Edit.reverse {s t : List α} (h : Edit s t) : Edit s.reverse t.reverse := by
  cases h with
  | insertion l r b => simpa using Edit.insertion r.reverse l.reverse b
  | deletion l r a => simpa using Edit.deletion r.reverse l.reverse a
  | substitution l r a b => simpa using Edit.substitution r.reverse l.reverse a b

theorem Edits.cons_elem {n : ℕ} {s t : List α} (a : α) (h : Edits n s t) :
    Edits n (a :: s) (a :: t) := by
  induction h with
  | nil s => exact .nil _
  | cons h _ ih => exact .cons (h.cons a) ih

theorem Edits.reverse {n : ℕ} {s t : List α} (h : Edits n s t) :
    Edits n s.reverse t.reverse := by
  induction h with
  | nil s => exact .nil _
  | cons h _ ih => exact .cons h.reverse ih

section Distance

variable [DecidableEq α]

/-- The cost of one element standing for another. -/
def cost (a b : α) : ℕ := if a = b then 0 else 1

theorem cost_self (a : α) : cost a a = 0 := if_pos rfl

theorem cost_le_one (a b : α) : cost a b ≤ 1 := by
  unfold cost
  split <;> omega

theorem cost_comm (a b : α) : cost a b = cost b a := by
  unfold cost
  simp only [eq_comm]

theorem cost_eq_zero {a b : α} (h : cost a b = 0) : a = b := by
  unfold cost at h
  split at h
  · assumption
  · cases h

theorem cost_triangle (a b c : α) : cost a c ≤ cost a b + cost b c := by
  by_cases hab : a = b
  · rw [hab, cost_self, Nat.zero_add]
  · have hone : cost a b = 1 := if_neg hab
    have hle := cost_le_one a c
    omega

/-- The distances of `a :: s` from the lists that end one list, those of `s` being `d`. -/
def distanceRow (a : α) (n : ℕ) (d : List α → ℕ) : List α → ℕ
  | [] => n
  | b :: t => min (min (d (b :: t) + 1) (distanceRow a n d t + 1)) (d t + cost a b)

/-- The recurrence: delete the first element of the one list, insert that of the other, or let one
stand for the other. -/
def distance : List α → List α → ℕ
  | [] => List.length
  | a :: s => distanceRow a (s.length + 1) (distance s)

@[simp] theorem distance_nil_left (t : List α) : distance [] t = t.length := rfl

@[simp] theorem distance_nil_right (s : List α) : distance s [] = s.length := by
  cases s <;> rfl

theorem distance_cons_cons (a b : α) (s t : List α) :
    distance (a :: s) (b :: t) =
      min (min (distance s (b :: t) + 1) (distance (a :: s) t + 1)) (distance s t + cost a b) :=
  rfl

/-- A script read from left to right, with its length. -/
inductive Alignment : ℕ → List α → List α → Prop
  | nil : Alignment 0 [] []
  | insertion {n : ℕ} {s t : List α} (b : α) : Alignment n s t → Alignment (n + 1) s (b :: t)
  | deletion {n : ℕ} {s t : List α} (a : α) : Alignment n s t → Alignment (n + 1) (a :: s) t
  | replacement {n : ℕ} {s t : List α} (a b : α) :
    Alignment n s t → Alignment (n + cost a b) (a :: s) (b :: t)

namespace Alignment

theorem refl (s : List α) : Alignment 0 s s := by
  induction s with
  | nil => exact nil
  | cons a s ih =>
    have h := replacement a a ih
    rwa [cost_self] at h

theorem symm {n : ℕ} {s t : List α} (h : Alignment n s t) : Alignment n t s := by
  induction h with
  | nil => exact nil
  | insertion b _ ih => exact ih.deletion b
  | deletion a _ ih => exact ih.insertion a
  | replacement a b _ ih =>
    rw [cost_comm]
    exact ih.replacement b a

/-- An alignment is a script of its length. -/
theorem edits {n : ℕ} {s t : List α} (h : Alignment n s t) : Edits n s t := by
  induction h with
  | nil => exact .nil []
  | insertion b _ ih => exact .cons (.insertion [] _ b) (ih.cons_elem b)
  | deletion a _ ih => exact .cons (.deletion [] _ a) ih
  | @replacement n s t a b _ ih =>
    by_cases hab : a = b
    · rw [hab, cost_self]
      exact ih.cons_elem b
    · have hone : cost a b = 1 := if_neg hab
      rw [hone]
      exact .cons (.substitution [] _ a b) (ih.cons_elem b)

/-- Alignments compose, at no more than the sum of their lengths. The induction is on the first one,
and inside it on the second, which may insert elements before it meets the one in question. -/
theorem trans {m n : ℕ} {s t u : List α} (hst : Alignment m s t) (htu : Alignment n t u) :
    ∃ k ≤ m + n, Alignment k s u := by
  induction hst generalizing n u with
  | nil => exact ⟨n, by omega, htu⟩
  | deletion a _ ih =>
    obtain ⟨k, hk, h⟩ := ih htu
    exact ⟨k + 1, by omega, h.deletion a⟩
  | @insertion m s t b _ ih =>
    generalize hbt : b :: t = v at htu
    induction htu with
    | nil => cases hbt
    | insertion c _ ih' =>
      obtain ⟨k, hk, h⟩ := ih' hbt
      exact ⟨k + 1, by omega, h.insertion c⟩
    | deletion c htu _ =>
      cases hbt
      obtain ⟨k, hk, h⟩ := ih htu
      exact ⟨k, by omega, h⟩
    | replacement _ c htu _ =>
      cases hbt
      obtain ⟨k, hk, h⟩ := ih htu
      exact ⟨k + 1, by omega, h.insertion c⟩
  | @replacement m s t a b _ ih =>
    generalize hbt : b :: t = v at htu
    induction htu with
    | nil => cases hbt
    | insertion c _ ih' =>
      obtain ⟨k, hk, h⟩ := ih' hbt
      exact ⟨k + 1, by omega, h.insertion c⟩
    | deletion c htu _ =>
      cases hbt
      obtain ⟨k, hk, h⟩ := ih htu
      exact ⟨k + 1, by omega, h.deletion a⟩
    | replacement _ c htu _ =>
      cases hbt
      obtain ⟨k, hk, h⟩ := ih htu
      have hcost := cost_triangle a b c
      exact ⟨k + cost a c, by omega, h.replacement a c⟩

theorem cons_elem {n : ℕ} {s t : List α} (a : α) (h : Alignment n s t) :
    Alignment n (a :: s) (a :: t) := by
  have h' := h.replacement a a
  rwa [cost_self] at h'

theorem append_left {n : ℕ} {s t : List α} (l : List α) (h : Alignment n s t) :
    Alignment n (l ++ s) (l ++ t) := by
  induction l with
  | nil => exact h
  | cons a l ih => exact ih.cons_elem a

end Alignment

/-- One edit is an alignment of length one at most. -/
theorem Edit.alignment {s t : List α} (h : Edit s t) : ∃ k ≤ 1, Alignment k s t := by
  cases h with
  | insertion l r b => exact ⟨1, le_rfl, ((Alignment.refl r).insertion b).append_left l⟩
  | deletion l r a => exact ⟨1, le_rfl, ((Alignment.refl r).deletion a).append_left l⟩
  | substitution l r a b =>
    exact ⟨0 + cost a b, by have := cost_le_one a b; omega,
      ((Alignment.refl r).replacement a b).append_left l⟩

/-- A script is an alignment that is no longer. -/
theorem Edits.alignment {n : ℕ} {s t : List α} (h : Edits n s t) : ∃ k ≤ n, Alignment k s t := by
  induction h with
  | nil s => exact ⟨0, le_rfl, .refl s⟩
  | cons h _ ih =>
    obtain ⟨i, hi, hst⟩ := h.alignment
    obtain ⟨j, hj, htu⟩ := ih
    obtain ⟨k, hk, hsu⟩ := hst.trans htu
    exact ⟨k, by omega, hsu⟩

/-! ## The recurrence is the cheapest alignment -/

theorem distance_cons_left_le (a : α) (s t : List α) :
    distance (a :: s) t ≤ distance s t + 1 := by
  cases t with
  | nil => simp
  | cons b t =>
    rw [distance_cons_cons]
    exact (min_le_left _ _).trans (min_le_left _ _)

theorem distance_cons_right_le (b : α) (s t : List α) :
    distance s (b :: t) ≤ distance s t + 1 := by
  cases s with
  | nil => simp
  | cons a s =>
    rw [distance_cons_cons]
    exact (min_le_left _ _).trans (min_le_right _ _)

theorem distance_cons_cons_le (a b : α) (s t : List α) :
    distance (a :: s) (b :: t) ≤ distance s t + cost a b := by
  rw [distance_cons_cons]
  exact min_le_right _ _

theorem Alignment.distance_le {n : ℕ} {s t : List α} (h : Alignment n s t) : distance s t ≤ n := by
  induction h with
  | nil => exact le_rfl
  | insertion b _ ih => exact (distance_cons_right_le b _ _).trans (Nat.succ_le_succ ih)
  | deletion a _ ih => exact (distance_cons_left_le a _ _).trans (Nat.succ_le_succ ih)
  | replacement a b _ ih => exact (distance_cons_cons_le a b _ _).trans (Nat.add_le_add_right ih _)

theorem alignment_nil_left (t : List α) : Alignment t.length [] t := by
  induction t with
  | nil => exact .nil
  | cons b t ih => exact ih.insertion b

theorem alignment_distance (s t : List α) : Alignment (distance s t) s t := by
  induction s generalizing t with
  | nil => exact alignment_nil_left t
  | cons a s ih =>
    induction t with
    | nil =>
      rw [distance_nil_right]
      exact (alignment_nil_left _).symm
    | cons b t ih' =>
      -- the least of three numbers is one of them
      rw [distance_cons_cons]
      rcases min_choice (min (distance s (b :: t) + 1) (distance (a :: s) t + 1))
        (distance s t + cost a b) with h | h <;> rw [h]
      · rcases min_choice (distance s (b :: t) + 1) (distance (a :: s) t + 1) with h | h <;> rw [h]
        · exact (ih (b :: t)).deletion a
        · exact ih'.insertion b
      · exact (ih t).replacement a b

/-- **The recurrence is optimal:** no script of edits is shorter than the distance, and one is as
short. -/
theorem isLeast_distance (s t : List α) : IsLeast {n | Edits n s t} (distance s t) := by
  refine ⟨(alignment_distance s t).edits, fun n (h : Edits n s t) => ?_⟩
  obtain ⟨k, hk, halign⟩ := h.alignment
  exact halign.distance_le.trans hk

/-! ## The distance as a measure -/

theorem distance_comm (s t : List α) : distance s t = distance t s :=
  le_antisymm (alignment_distance t s).symm.distance_le (alignment_distance s t).symm.distance_le

theorem distance_reverse_le (s t : List α) : distance s.reverse t.reverse ≤ distance s t :=
  (isLeast_distance s.reverse t.reverse).2 (alignment_distance s t).edits.reverse

/-- A script can be read from the other end. -/
theorem distance_reverse (s t : List α) : distance s.reverse t.reverse = distance s t := by
  refine le_antisymm (distance_reverse_le s t) ?_
  have h := distance_reverse_le s.reverse t.reverse
  rwa [List.reverse_reverse, List.reverse_reverse] at h

theorem distance_le_max (s t : List α) : distance s t ≤ max s.length t.length := by
  induction s generalizing t with
  | nil => simp
  | cons a s ih =>
    cases t with
    | nil => simp
    | cons b t =>
      have hstep := distance_cons_cons_le a b s t
      have hcost := cost_le_one a b
      have ih := ih t
      simp only [List.length_cons]
      omega

theorem Alignment.eq_of_zero {s t : List α} (h : Alignment 0 s t) : s = t := by
  generalize hn : 0 = n at h
  induction h with
  | nil => rfl
  | insertion => omega
  | deletion => omega
  | replacement a b _ ih => rw [ih (by omega), cost_eq_zero (by omega : cost a b = 0)]

theorem distance_eq_zero {s t : List α} : distance s t = 0 ↔ s = t := by
  constructor
  · intro h
    have halign := alignment_distance s t
    rw [h] at halign
    exact halign.eq_of_zero
  · rintro rfl
    exact Nat.le_zero.1 (Alignment.refl s).distance_le

end Distance

end GraduationServer
