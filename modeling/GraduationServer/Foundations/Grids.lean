import Mathlib.Tactic.Common

/-!
# Two-dimensional tables

A vector of vectors that is read and written by index, and the rules to verify the loops that fill
one. An index out of range has no result.

* `Grid.Holds` is the invariant of a table: each of its cells can be read, and its value satisfies a
  predicate. `Grid.Holds.write` is the rule of an assignment.
* `counted` is a loop that counts from one, `exists_counted` its invariant rule.
-/

namespace GraduationServer

variable {α σ : Type*}

/-- A vector of vectors. -/
abbrev Grid (α : Type*) := List (List α)

namespace Grid

/-- `n` rows of `m` cells each. -/
def new (n m : ℕ) (v : α) : Grid α := List.replicate n (List.replicate m v)

/-- `d[i][j]` -/
def read (d : Grid α) (i j : ℕ) : Option α := do
  let row ← d[i]?
  row[j]?

/-- `d[i][j] = v` -/
def write (d : Grid α) (i j : ℕ) (v : α) : Option (Grid α) := do
  let row ← d[i]?
  let _ ← row[j]?
  return d.set i (row.set j v)

/-- All cells of `n` rows and `m` columns can be read, and their values satisfy `P`. -/
def Holds (d : Grid α) (n m : ℕ) (P : ℕ → ℕ → α → Prop) : Prop :=
  ∀ a < n, ∀ b < m, ∃ v, d.read a b = some v ∧ P a b v

theorem holds_new {n m : ℕ} {v : α} {P : ℕ → ℕ → α → Prop} (h : ∀ a b, P a b v) :
    (new n m v).Holds n m P := by
  intro a ha b hb
  exact ⟨v, by simp [read, new, ha, hb], h a b⟩

theorem read_set {d : Grid α} {row : List α} {i j : ℕ} {v : α} (a b : ℕ) (hi : d[i]? = some row)
    (hj : j < row.length) :
    read (d.set i (row.set j v)) a b = if a = i ∧ b = j then some v else d.read a b := by
  obtain ⟨hlt, hrow⟩ := List.getElem?_eq_some_iff.1 hi
  unfold read
  by_cases ha : a = i
  · subst ha
    by_cases hb : b = j
    · simp [hlt, hb, hj]
    · simp [hlt, hb, hrow, List.getElem?_set_ne (Ne.symm hb)]
  · simp [ha, List.getElem?_set_ne (Ne.symm ha)]

namespace Holds

variable {d : Grid α} {n m : ℕ} {P Q : ℕ → ℕ → α → Prop}

/-- The rule of an assignment: it succeeds within the bounds, and leaves the other cells alone. -/
theorem write {i j : ℕ} {v : α} (h : d.Holds n m P) (hi : i < n) (hj : j < m) (hv : Q i j v)
    (hQ : ∀ a b w, (a ≠ i ∨ b ≠ j) → P a b w → Q a b w) :
    ∃ d', d.write i j v = some d' ∧ d'.Holds n m Q := by
  obtain ⟨w, hread, -⟩ := h i hi j hj
  obtain ⟨row, hrow, hcell⟩ := Option.bind_eq_some_iff.1 hread
  obtain ⟨hlt, -⟩ := List.getElem?_eq_some_iff.1 hcell
  refine ⟨d.set i (row.set j v), by simp [Grid.write, hrow, hcell], fun a ha b hb => ?_⟩
  rw [read_set a b hrow hlt]
  split
  · next heq =>
    obtain ⟨rfl, rfl⟩ := heq
    exact ⟨v, rfl, hv⟩
  · next hne =>
    obtain ⟨w, hread, hP⟩ := h a ha b hb
    exact ⟨w, hread, hQ a b w (not_and_or.1 hne) hP⟩

theorem mono (h : d.Holds n m P) (hQ : ∀ a < n, ∀ b < m, ∀ v, P a b v → Q a b v) :
    d.Holds n m Q := by
  intro a ha b hb
  obtain ⟨v, hread, hP⟩ := h a ha b hb
  exact ⟨v, hread, hQ a ha b hb v hP⟩

end Holds

end Grid

/-- A loop whose counter goes from one to `n`; none if a round has no result. -/
def counted (n : ℕ) (body : σ → ℕ → Option σ) (s : σ) : Option σ := (List.range' 1 n).foldlM body s

/-- A counted loop ends, and keeps an invariant that each round moves on by one. -/
theorem exists_counted {body : σ → ℕ → Option σ} {n : ℕ} {s : σ} (I : ℕ → σ → Prop)
    (hinit : I 0 s) (hstep : ∀ i < n, ∀ s, I i s → ∃ s', body s (i + 1) = some s' ∧ I (i + 1) s') :
    ∃ s', counted n body s = some s' ∧ I n s' := by
  induction n with
  | zero => exact ⟨s, rfl, hinit⟩
  | succ n ih =>
    obtain ⟨t, hrun, ht⟩ := ih fun i hi => hstep i (by omega)
    obtain ⟨t', hbody, ht'⟩ := hstep n (by omega) t ht
    refine ⟨t', ?_, ht'⟩
    rw [counted] at hrun ⊢
    rw [List.range'_concat, List.foldlM_append, hrun]
    simpa [Nat.add_comm] using hbody

end GraduationServer
