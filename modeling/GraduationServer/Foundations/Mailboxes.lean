import Mathlib.Data.List.Basic
import Mathlib.Tactic.Common

/-!
# Mailboxes

Things with an owner wait in one list until their owner asks for them. A thing that is put is the last
of the list; what is taken are all things of an owner, in the order of the list, and the others stay.

Whatever the order of these events, an owner is given what was put for it, each thing once and in the
order in which it was put; the rest of it is waiting (`given_append_waiting`).
-/

namespace GraduationServer

namespace Mailboxes

variable {κ ρ : Type*}

/-- Something is put into the list, or an owner takes what there is. -/
inductive Event (κ ρ : Type*)
  | put (thing : ρ)
  | take (owner : κ)

variable [DecidableEq κ] (ownerOf : ρ → κ)

/-- The things of an owner. -/
def waiting (owner : κ) (things : List ρ) : List ρ := things.filter fun r => ownerOf r = owner

/-- The things of all others. -/
def others (owner : κ) (things : List ρ) : List ρ := things.filter fun r => ownerOf r ≠ owner

/-- The list after an event. -/
def step (things : List ρ) : Event κ ρ → List ρ
  | .put thing => things ++ [thing]
  | .take owner => others ownerOf owner things

/-- What an owner is given by some events. -/
def given (owner : κ) : List ρ → List (Event κ ρ) → List ρ
  | _, [] => []
  | things, .put thing :: events => given owner (step ownerOf things (.put thing)) events
  | things, .take owner' :: events =>
    (if owner' = owner then waiting ownerOf owner things else []) ++
      given owner (step ownerOf things (.take owner')) events

/-- The list after some events. -/
def run (things : List ρ) (events : List (Event κ ρ)) : List ρ := events.foldl (step ownerOf) things

/-- What is put for an owner by some events. -/
def putFor (owner : κ) (events : List (Event κ ρ)) : List ρ :=
  waiting ownerOf owner <| events.filterMap fun
    | .put thing => some thing
    | .take _ => none

variable {ownerOf} {owner owner' : κ} {things : List ρ}

theorem waiting_append (things things' : List ρ) :
    waiting ownerOf owner (things ++ things') =
      waiting ownerOf owner things ++ waiting ownerOf owner things' :=
  List.filter_append _ _

@[simp] theorem putFor_put (thing : ρ) (events : List (Event κ ρ)) :
    putFor ownerOf owner (.put thing :: events) =
      (if ownerOf thing = owner then [thing] else []) ++ putFor ownerOf owner events := by
  by_cases h : ownerOf thing = owner <;> simp [putFor, waiting, h]

@[simp] theorem putFor_take (events : List (Event κ ρ)) :
    putFor ownerOf owner (.take owner' :: events) = putFor ownerOf owner events := rfl

theorem waiting_singleton (thing : ρ) :
    waiting ownerOf owner [thing] = if ownerOf thing = owner then [thing] else [] := by
  by_cases h : ownerOf thing = owner <;> simp [waiting, h]

/-- Nothing waits for an owner that has taken it. -/
theorem waiting_others_self : waiting ownerOf owner (others ownerOf owner things) = [] := by
  simp only [waiting, others, List.filter_filter, List.filter_eq_nil_iff]
  intro r _
  simp

/-- What others have taken was not for the owner. -/
theorem waiting_others (h : owner' ≠ owner) :
    waiting ownerOf owner (others ownerOf owner' things) = waiting ownerOf owner things := by
  simp only [waiting, others, List.filter_filter]
  refine List.filter_congr fun r _ => ?_
  by_cases hr : ownerOf r = owner
  · simp [hr, Ne.symm h]
  · simp [hr]

variable (ownerOf) in
/-- **Everything is given once and in order.** What an owner is given and what then waits for it is what
waited at the beginning and what was put for it. -/
theorem given_append_waiting (owner : κ) (things : List ρ) (events : List (Event κ ρ)) :
    given ownerOf owner things events ++ waiting ownerOf owner (run ownerOf things events) =
      waiting ownerOf owner things ++ putFor ownerOf owner events := by
  induction events generalizing things with
  | nil => simp [given, run, putFor, waiting]
  | cons event events ih =>
    cases event with
    | put thing =>
      rw [given, run, List.foldl_cons, ← run, ih, putFor_put, step, waiting_append,
        waiting_singleton, List.append_assoc]
    | take owner' =>
      rw [given, run, List.foldl_cons, ← run, List.append_assoc, ih, putFor_take, step]
      by_cases h : owner' = owner
      · rw [if_pos h, h, waiting_others_self, List.nil_append]
      · rw [if_neg h, waiting_others h, List.nil_append]

end Mailboxes

end GraduationServer
