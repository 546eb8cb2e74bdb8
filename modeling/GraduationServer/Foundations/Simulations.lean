import GraduationServer.Foundations.Runs
import Mathlib.Tactic.Common

/-!
# Simulations

A system takes one step for each of its inputs, with an output for each; a step may fail, and then the
run does. `runs` is a run on a list of inputs, with the list of its outputs.

One system simulates another when its steps can be followed by steps of the other with the same outputs
and related states. A simulation of the steps is one of the runs (`runs_simulates`), also when the outputs
are only related and the inputs keep to a contract (`runs_follows`), and a fact of the states that every step
keeps holds after every run (`runs_keeps`). Under such a fact, what is true of every step is true all along a
run (`runs_forall`), and a run ends, or comes to a step of the only kind that does not (`runs_or`).
-/

namespace GraduationServer

variable {σ τ α ω : Type*} {step : σ → α → Option (ω × σ)} {step' : τ → α → Option (ω × τ)}

/-- The outputs of a run, and the state behind it. -/
def runs (step : σ → α → Option (ω × σ)) : σ → List α → Option (List ω × σ)
  | s, [] => some ([], s)
  | s, a :: as =>
    (step s a).bind fun p => (runs step p.2 as).map fun q => (p.1 :: q.1, q.2)

theorem runs_nil (s : σ) : runs step s [] = some ([], s) := rfl

/-- A run is a step and a run from where that leads. -/
theorem runs_cons_eq_some {s s' : σ} {a : α} {as : List α} {os : List ω} :
    runs step s (a :: as) = some (os, s') ↔
      ∃ o t os', step s a = some (o, t) ∧ runs step t as = some (os', s') ∧ os = o :: os' := by
  rw [runs, Option.bind_eq_some_iff]
  constructor
  · rintro ⟨⟨o, t⟩, hstep, h⟩
    obtain ⟨⟨os', s''⟩, hrun, hpair⟩ := Option.map_eq_some_iff.1 h
    cases hpair
    exact ⟨o, t, os', hstep, hrun, rfl⟩
  · rintro ⟨o, t, os', hstep, hrun, rfl⟩
    exact ⟨(o, t), hstep, by rw [hrun]; rfl⟩

/-- What holds along a run on two lists of inputs holds along the run on the first, and along that on the
second from where the first leads. -/
theorem along_append {P : σ → α → Prop} {s : σ} {as bs : List α}
    (h : Along (fun s a => (step s a).map Prod.snd) P s (as ++ bs)) :
    Along (fun s a => (step s a).map Prod.snd) P s as ∧
      ∀ os t, runs step s as = some (os, t) → Along (fun s a => (step s a).map Prod.snd) P t bs := by
  induction as generalizing s with
  | nil =>
    refine ⟨trivial, fun os t hrun => ?_⟩
    cases hrun
    exact h
  | cons a as ih =>
    obtain ⟨ha, hrest⟩ := (along_cons _ _ _).1 h
    refine ⟨⟨ha, fun s' hs' => (ih (hrest s' hs')).1⟩, fun os t hrun => ?_⟩
    obtain ⟨o, u, os', hstep, hrun', -⟩ := runs_cons_eq_some.1 hrun
    exact (ih (hrest u (by rw [hstep]; rfl))).2 os' t hrun'

/-- A run with a given output has a step with this output, behind a run with the outputs in front of it. -/
theorem runs_split {s s' : σ} {as : List α} {before behind : List ω} {o : ω}
    (h : runs step s as = some (before ++ o :: behind, s')) :
    ∃ as₁ a as₂ t u, as = as₁ ++ a :: as₂ ∧ runs step s as₁ = some (before, t) ∧
      step t a = some (o, u) := by
  induction before generalizing s as with
  | nil =>
    cases as with
    | nil => cases h
    | cons a as =>
      obtain ⟨o', t, os', hstep, hrest, heq⟩ := runs_cons_eq_some.1 h
      cases heq
      exact ⟨[], a, as, s, t, rfl, rfl, hstep⟩
  | cons p before ih =>
    cases as with
    | nil => cases h
    | cons a as =>
      obtain ⟨o', t, os', hstep, hrest, heq⟩ := runs_cons_eq_some.1 h
      cases heq
      obtain ⟨as₁, b, as₂, u, v, rfl, hrun, hlast⟩ := ih hrest
      exact ⟨a :: as₁, b, as₂, u, v, rfl, runs_cons_eq_some.2 ⟨_, t, before, hstep, hrun, rfl⟩, hlast⟩

/-- **A simulation of the steps is a simulation of the runs.** -/
theorem runs_simulates (R : σ → τ → Prop)
    (h : ∀ s t a o s', R s t → step s a = some (o, s') → ∃ t', step' t a = some (o, t') ∧ R s' t')
    {as : List α} {s s' : σ} {t : τ} {os : List ω} (hR : R s t)
    (hrun : runs step s as = some (os, s')) :
    ∃ t', runs step' t as = some (os, t') ∧ R s' t' := by
  induction as generalizing s t os with
  | nil =>
    rw [runs_nil] at hrun
    cases hrun
    exact ⟨t, rfl, hR⟩
  | cons a as ih =>
    obtain ⟨o, u, os', hstep, hrest, rfl⟩ := runs_cons_eq_some.1 hrun
    obtain ⟨v, hstep', hR'⟩ := h s t a o u hR hstep
    obtain ⟨t', hrest', hfinal⟩ := ih hR' hrest
    exact ⟨t', runs_cons_eq_some.2 ⟨o, v, os', hstep', hrest', rfl⟩, hfinal⟩

/-- **Steps that are followed under a contract are followed in every run that keeps to it**, with other
outputs that are related to the first. -/
theorem runs_follows {ω' : Type*} {step' : τ → α → Option (ω' × τ)} (R : σ → τ → Prop) {P : σ → α → Prop}
    {O : ω → ω' → Prop}
    (h : ∀ s t a o s', R s t → P s a → step s a = some (o, s') →
      ∃ o' t', step' t a = some (o', t') ∧ O o o' ∧ R s' t')
    {as : List α} {s s' : σ} {t : τ} {os : List ω} (hR : R s t)
    (has : Along (fun s a => (step s a).map Prod.snd) P s as) (hrun : runs step s as = some (os, s')) :
    ∃ os' t', runs step' t as = some (os', t') ∧ List.Forall₂ O os os' ∧ R s' t' := by
  induction as generalizing s t os with
  | nil =>
    rw [runs_nil] at hrun
    cases hrun
    exact ⟨[], t, rfl, .nil, hR⟩
  | cons a as ih =>
    obtain ⟨o, u, os₁, hstep, hrest, rfl⟩ := runs_cons_eq_some.1 hrun
    obtain ⟨ha, hbehind⟩ := (along_cons _ _ _).1 has
    obtain ⟨o', v, hstep', hO, hR'⟩ := h s t a o u hR ha hstep
    obtain ⟨os', t', hrest', hOs, hfinal⟩ := ih hR' (hbehind u (by rw [hstep]; rfl)) hrest
    exact ⟨o' :: os', t', runs_cons_eq_some.2 ⟨o', v, os', hstep', hrest', rfl⟩, .cons hO hOs, hfinal⟩

/-- **What every step keeps holds after every run.** -/
theorem runs_keeps (Inv : σ → Prop) (h : ∀ s a o s', Inv s → step s a = some (o, s') → Inv s')
    {as : List α} {s s' : σ} {os : List ω} (hs : Inv s) (hrun : runs step s as = some (os, s')) :
    Inv s' := by
  induction as generalizing s os with
  | nil =>
    rw [runs_nil] at hrun
    cases hrun
    exact hs
  | cons a as ih =>
    obtain ⟨o, u, os', hstep, hrest, -⟩ := runs_cons_eq_some.1 hrun
    exact ih (h s a o u hs hstep) hrest

/-- **What is true of every step is true of every input and its output.** -/
theorem runs_forall (Inv : σ → Prop) {Q : α → ω → Prop}
    (h : ∀ s a o s', Inv s → step s a = some (o, s') → Inv s' ∧ Q a o) {as : List α} {s s' : σ}
    {os : List ω} (hs : Inv s) (hrun : runs step s as = some (os, s')) : ∀ p ∈ as.zip os, Q p.1 p.2 := by
  induction as generalizing s os with
  | nil => simp
  | cons a as ih =>
    obtain ⟨o, u, os', hstep, hrest, rfl⟩ := runs_cons_eq_some.1 hrun
    obtain ⟨hu, hQ⟩ := h s a o u hs hstep
    rw [List.zip_cons_cons, List.forall_mem_cons]
    exact ⟨hQ, ih hu hrest⟩

/-- **A run ends, or comes to a step that does not.** -/
theorem runs_or (Inv : σ → Prop) {P Q : σ → α → Prop}
    (h : ∀ s a, Inv s → P s a → Q s a ∨ ∃ o s', step s a = some (o, s') ∧ Inv s') {as : List α} {s : σ}
    (hs : Inv s) (has : Along (fun s a => (step s a).map Prod.snd) P s as) :
    (runs step s as).isSome ∨
      ∃ before a behind os t, as = before ++ a :: behind ∧ runs step s before = some (os, t) ∧ Q t a := by
  induction as generalizing s with
  | nil => exact .inl rfl
  | cons a as ih =>
    obtain ⟨ha, hrest⟩ := (along_cons _ _ _).1 has
    rcases h s a hs ha with hQ | ⟨o, u, hstep, hu⟩
    · exact .inr ⟨[], a, as, [], s, rfl, rfl, hQ⟩
    · rcases ih hu (hrest u (by rw [hstep]; rfl)) with hsome | ⟨before, b, behind, os, t, rfl, hrun, hQ⟩
      · obtain ⟨⟨os, t⟩, hrun⟩ := Option.isSome_iff_exists.1 hsome
        exact .inl (by rw [runs, hstep, Option.bind_some, hrun]; rfl)
      · exact .inr ⟨a :: before, b, behind, o :: os, t, rfl,
          runs_cons_eq_some.2 ⟨o, u, os, hstep, hrun, rfl⟩, hQ⟩

end GraduationServer
