import Mathlib.Tactic.Common

/-!
# Loops that may not end

The body of a loop takes a state to the next one (`inl`), or leaves the loop with a result (`inr`).
`Ends step s r` says that the loop ends from a state with a result, after any number of rounds.

* `ends_of_inl` and `ends_of_inr` follow the loop by one round, and so tell its only result.
* `not_ends_of_stuck`: a loop that comes back to its state does not end.
-/

namespace GraduationServer

variable {σ ρ : Type*} {step : σ → σ ⊕ ρ} {s s' : σ} {r r' : ρ}

/-- The result of a loop within a number of rounds. -/
def rounds (step : σ → σ ⊕ ρ) : ℕ → σ → Option ρ
  | 0, _ => none
  | n + 1, s =>
    match step s with
    | .inl s' => rounds step n s'
    | .inr r => some r

/-- The loop ends with a result. -/
def Ends (step : σ → σ ⊕ ρ) (s : σ) (r : ρ) : Prop := ∃ n, rounds step n s = some r

theorem rounds_of_inl (h : step s = .inl s') (n : ℕ) :
    rounds step (n + 1) s = rounds step n s' := by
  rw [rounds, h]

theorem rounds_of_inr (h : step s = .inr r) (n : ℕ) : rounds step (n + 1) s = some r := by
  rw [rounds, h]

/-- A round that goes on. -/
theorem ends_of_inl (h : step s = .inl s') : Ends step s r ↔ Ends step s' r := by
  constructor
  · rintro ⟨n, hn⟩
    cases n with
    | zero => cases hn
    | succ n => exact ⟨n, (rounds_of_inl h n).symm.trans hn⟩
  · rintro ⟨n, hn⟩
    exact ⟨n + 1, (rounds_of_inl h n).trans hn⟩

/-- A round that leaves the loop. -/
theorem ends_of_inr (h : step s = .inr r') : Ends step s r ↔ r' = r := by
  constructor
  · rintro ⟨n, hn⟩
    cases n with
    | zero => cases hn
    | succ n => exact Option.some.inj ((rounds_of_inr h n).symm.trans hn)
  · rintro rfl
    exact ⟨1, rounds_of_inr h 0⟩

/-- What is left behind by a round that leaves the loop. -/
theorem exists_ends_of_inr (h : step s = .inr r') {P : ρ → Prop} :
    (∃ r, Ends step s r ∧ P r) ↔ P r' := by
  simp only [ends_of_inr h, exists_eq_left']

/-- A loop that comes back to its state does not end. -/
theorem not_ends_of_stuck (h : step s = .inl s) : ¬ Ends step s r := by
  rintro ⟨n, hn⟩
  induction n with
  | zero => cases hn
  | succ n ih => exact ih ((rounds_of_inl h n).symm.trans hn)

end GraduationServer
