import Mathlib.Data.List.Basic
import Mathlib.Tactic.Common

/-!
# Partial computations and their runs

A computation that may throw has its result in `Option`. `isSome_bind_iff` and `isSome_mapM` tell
when a sequence of such computations has one, `map_eq_of_mapM` what that is like.

A system takes one step for each of its inputs; a step may end the run. `Along step P s as` says
that `P` holds of the state and the input at every step of the run from `s` on the inputs `as`.

Two such properties agree along every run when they agree step by step in the states an invariant
describes (`along_iff`): the way a property of runs is reduced to a condition on the inputs and the
states before each step.
-/

namespace GraduationServer

/-! ## Partial computations -/

theorem isSome_bind {α β : Type} {o : Option α} {f : α → Option β} :
    (o.bind f).isSome ↔ ∃ a, o = some a ∧ (f a).isSome := by
  cases o <;> simp

/-- A step with a continuation that has a result under a condition, whatever the step gives. -/
theorem isSome_bind_iff {α β : Type} {o : Option α} {f : α → Option β} {P : Prop}
    (h : ∀ a, o = some a → ((f a).isSome ↔ P)) : (o.bind f).isSome ↔ o.isSome ∧ P := by
  cases o with
  | none => simp
  | some a => simpa using h a rfl

/-- A step with a continuation that always has a result. -/
theorem isSome_bind_of_forall {α β : Type} {o : Option α} {f : α → Option β}
    (h : ∀ a, o = some a → (f a).isSome) : (o.bind f).isSome ↔ o.isSome := by
  rw [isSome_bind_iff fun a ha => iff_true_intro (h a ha), and_true]

theorem isSome_mapM {α β : Type} {f : α → Option β} {l : List α} :
    (l.mapM f).isSome ↔ ∀ a ∈ l, (f a).isSome := by
  induction l with
  | nil => simp
  | cons a l ih =>
    rw [List.mapM_cons, List.forall_mem_cons, ← ih]
    exact isSome_bind_iff fun b _ => by cases l.mapM f <;> simp

/-- What each of the results is like tells what the list of them is like. -/
theorem map_eq_of_mapM {α β γ : Type} {f : α → Option β} {g : β → γ} {k : α → γ}
    (hk : ∀ a b, f a = some b → g b = k a) {l : List α} {l' : List β} (h : l.mapM f = some l') :
    l'.map g = l.map k := by
  induction l generalizing l' with
  | nil =>
    cases h
    rfl
  | cons a l ih =>
    rw [List.mapM_cons] at h
    obtain ⟨b, hb, h⟩ := Option.bind_eq_some_iff.1 h
    obtain ⟨bs, hbs, h⟩ := Option.bind_eq_some_iff.1 h
    cases h
    rw [List.map_cons, List.map_cons, ih hbs, hk a b hb]

/-- The results of a list of computations are those of each of them. -/
theorem map_some_of_mapM {α β : Type} {f : α → Option β} {l : List α} {l' : List β}
    (h : l.mapM f = some l') : l'.map some = l.map f :=
  map_eq_of_mapM (fun _ _ hb => hb.symm) h

/-! ## Runs -/

variable {σ α : Type*} {step : σ → α → Option σ} {P Q : σ → α → Prop}

/-- `P` holds at every step of the run from a state on a list of inputs. -/
def Along (step : σ → α → Option σ) (P : σ → α → Prop) : σ → List α → Prop
  | _, [] => True
  | s, a :: as => P s a ∧ ∀ s', step s a = some s' → Along step P s' as

@[simp] theorem along_nil (s : σ) : Along step P s [] := trivial

theorem along_cons (s : σ) (a : α) (as : List α) :
    Along step P s (a :: as) ↔ P s a ∧ ∀ s', step s a = some s' → Along step P s' as := Iff.rfl

theorem along_of_step {s : σ} {a : α} {as : List α} {s' : σ} (h : step s a = some s') :
    Along step P s (a :: as) ↔ P s a ∧ Along step P s' as := by
  rw [along_cons, h]
  simp

instance decidableAlong [∀ s a, Decidable (P s a)] :
    (s : σ) → (as : List α) → Decidable (Along step P s as)
  | _, [] => isTrue trivial
  | s, a :: as =>
    match h : step s a with
    | none => decidable_of_iff (P s a) (by rw [along_cons, h]; simp)
    | some s' =>
      have := decidableAlong s' as
      decidable_of_iff (P s a ∧ Along step P s' as) (along_of_step h).symm

/-- **Agreement along runs.** Where the invariant holds the two properties agree, and a step at
which they hold keeps the invariant. -/
theorem along_iff (Inv : σ → Prop) (hiff : ∀ s a, Inv s → (P s a ↔ Q s a))
    (hstep : ∀ s a s', Inv s → Q s a → step s a = some s' → Inv s') (as : List α) :
    ∀ s, Inv s → (Along step P s as ↔ Along step Q s as) := by
  induction as with
  | nil => simp
  | cons a as ih =>
    intro s hs
    rw [along_cons, along_cons, hiff s a hs]
    refine and_congr_right fun hQ => ?_
    exact forall₂_congr fun s' hs' => ih s' (hstep s a s' hs hQ hs')

theorem Along.imp {s : σ} {as : List α} (h : Along step P s as) (himp : ∀ a ∈ as, ∀ s, P s a → Q s a) :
    Along step Q s as := by
  induction as generalizing s with
  | nil => trivial
  | cons a as ih =>
    exact ⟨himp a List.mem_cons_self s h.1,
      fun s' hs' => ih (h.2 s' hs') fun b hb => himp b (List.mem_cons_of_mem _ hb)⟩

/-- What every step keeps holds after a run. -/
theorem foldlM_keeps (Inv : σ → Prop) (h : ∀ s a s', Inv s → step s a = some s' → Inv s') {as : List α}
    {s s' : σ} (hs : Inv s) (hrun : as.foldlM step s = some s') : Inv s' := by
  induction as generalizing s with
  | nil =>
    cases hrun
    exact hs
  | cons a as ih =>
    rw [List.foldlM_cons] at hrun
    obtain ⟨t, hstep, hrest⟩ := Option.bind_eq_some_iff.1 hrun
    exact ih (h s a t hs hstep) hrest

end GraduationServer
