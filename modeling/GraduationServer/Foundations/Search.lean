import Mathlib.Data.List.Infix
import Mathlib.Tactic.Common

/-!
# The first occurrence of a pattern

`cut p s` is the text before the first occurrence of `p` in `s` and the text behind it, and
`replaceFirst p r s` puts `r` in its place. A pattern that begins nowhere in a text (`Apart`) is found
behind it (`cut_append`). A replacement brings in nothing else (`mem_or_mem_of_mem_replaceFirst`).
-/

namespace GraduationServer

variable {α : Type*} {pattern replacement s t : List α} {c : α}

/-- The pattern does not begin within a text, whatever follows the text. -/
def Apart (pattern t : List α) : Prop :=
  ∀ u ∈ t.tails, u ≠ [] → pattern.take u.length ≠ u.take pattern.length

theorem Apart.not_prefix (h : Apart pattern (c :: t)) : ¬ pattern <+: c :: (t ++ s) := by
  rintro ⟨rest, hrest⟩
  refine h (c :: t) ((List.mem_tails _ _).2 (List.suffix_refl _)) (List.cons_ne_nil _ _) ?_
  rw [← List.cons_append] at hrest
  rcases List.append_eq_append_iff.1 hrest with ⟨a, ha, -⟩ | ⟨a, ha, -⟩
  · rw [ha]
    simp
  · rw [ha]
    simp

theorem Apart.tail (h : Apart pattern (c :: t)) : Apart pattern t := fun u hu =>
  h u ((List.mem_tails _ _).2 (((List.mem_tails _ _).1 hu).trans (List.suffix_cons c t)))

variable [DecidableEq α]

/-- The texts before and behind the first occurrence of a pattern. -/
def cut (pattern : List α) : List α → Option (List α × List α)
  | [] => if pattern = [] then some ([], []) else none
  | c :: s =>
    if pattern <+: c :: s then some ([], (c :: s).drop pattern.length)
    else (cut pattern s).map fun p => (c :: p.1, p.2)

/-- The pattern occurs in the text. -/
def contains (pattern s : List α) : Bool := (cut pattern s).isSome

/-- A text in the place of the first occurrence of a pattern. -/
def replaceFirst (pattern replacement s : List α) : List α :=
  match cut pattern s with
  | some (before, behind) => before ++ replacement ++ behind
  | none => s

instance (pattern t : List α) : Decidable (Apart pattern t) :=
  inferInstanceAs (Decidable (∀ _ ∈ _, _))

/-- A text is cut at the pattern. -/
theorem eq_append_of_cut {before behind : List α} (h : cut pattern s = some (before, behind)) :
    s = before ++ pattern ++ behind := by
  induction s generalizing before with
  | nil =>
    rw [cut] at h
    split at h
    · next hpattern =>
      cases h
      rw [hpattern]
      rfl
    · cases h
  | cons c s ih =>
    rw [cut] at h
    split at h
    · next hprefix =>
      cases h
      obtain ⟨rest, hrest⟩ := hprefix
      rw [← hrest, List.drop_left, List.nil_append]
    · obtain ⟨⟨before', behind'⟩, hcut, h⟩ := Option.map_eq_some_iff.1 h
      cases h
      rw [ih hcut]
      rfl

/-- What is replaced is the first occurrence. -/
theorem exists_of_contains (h : contains pattern s = true) (replacement : List α) :
    ∃ before behind, s = before ++ pattern ++ behind ∧
      replaceFirst pattern replacement s = before ++ replacement ++ behind := by
  obtain ⟨⟨before, behind⟩, hcut⟩ := Option.isSome_iff_exists.1 h
  exact ⟨before, behind, eq_append_of_cut hcut, by rw [replaceFirst, hcut]⟩

/-- Nothing comes in but the replacement. -/
theorem mem_or_mem_of_mem_replaceFirst (h : c ∈ replaceFirst pattern replacement s) :
    c ∈ replacement ∨ c ∈ s := by
  unfold replaceFirst at h
  split at h
  · next before behind hcut =>
    rw [eq_append_of_cut hcut]
    simp only [List.mem_append] at h ⊢
    tauto
  · exact Or.inr h

/-- Such a pattern is found behind the text. -/
theorem cut_append (h : Apart pattern t) :
    cut pattern (t ++ s) = (cut pattern s).map fun p => (t ++ p.1, p.2) := by
  induction t with
  | nil => simp
  | cons c t ih =>
    rw [List.cons_append, cut, if_neg h.not_prefix, ih h.tail, Option.map_map]
    rfl

theorem replaceFirst_append (h : Apart pattern t) :
    replaceFirst pattern replacement (t ++ s) = t ++ replaceFirst pattern replacement s := by
  unfold replaceFirst
  rw [cut_append h]
  cases cut pattern s with
  | none => rfl
  | some p => simp

end GraduationServer
