import Mathlib.Data.List.Basic
import Mathlib.Data.Prod.Basic
import Mathlib.Tactic.Common

/-!
# Prefix-free codes

A code is prefix-free when its words can be split off the front of a text in one way only. Codes are
put together from others: a word behind another one that may tell its code (`PrefixFree.pair`), a list
of words with an end behind it (`PrefixFree.terminated`), texts of a given length
(`prefixFree_length`), and texts up to a letter they do not have (`prefixFree_until`).
-/

namespace GraduationServer

variable {α β γ : Type*}

/-- Words can be split off the front of a text in one way only. -/
def PrefixFree (code : β → List α) : Prop :=
  ∀ ⦃b b' : β⦄ ⦃s s' : List α⦄, code b ++ s = code b' ++ s' → b = b' ∧ s = s'

namespace PrefixFree

variable {f : β → List α}

/-- No word is a proper front of another one. -/
theorem eq_nil (hf : PrefixFree f) {b b' : β} {s : List α} (h : f b' = f b ++ s) : s = [] := by
  have heq : f b' ++ [] = f b ++ s := (List.append_nil _).trans h
  exact (hf heq).2.symm

/-- A code for fewer things. -/
theorem comp (hf : PrefixFree f) {g : γ → β} (hg : Function.Injective g) :
    PrefixFree fun c => f (g c) := by
  intro c c' s s' h
  obtain ⟨heq, hs⟩ := hf h
  exact ⟨hg heq, hs⟩

/-- Two words, one behind the other: the first may tell the code of the second. -/
theorem pair (hf : PrefixFree f) {g : β → γ → List α} (hg : ∀ b, PrefixFree (g b)) :
    PrefixFree fun p : β × γ => f p.1 ++ g p.1 p.2 := by
  rintro ⟨b, c⟩ ⟨b', c'⟩ s s' h
  rw [List.append_assoc, List.append_assoc] at h
  obtain ⟨rfl, hrest⟩ := hf h
  obtain ⟨rfl, hs⟩ := hg b hrest
  exact ⟨rfl, hs⟩

/-- Some words with an end behind them that is not taken for a word. -/
theorem terminated (hf : PrefixFree f) {g : γ → List α} (hg : PrefixFree g)
    (hend : ∀ b c s s', f b ++ s ≠ g c ++ s') :
    PrefixFree fun p : List β × γ => p.1.flatMap f ++ g p.2 := by
  rintro ⟨l, c⟩ ⟨l', c'⟩ s s' h
  induction l generalizing l' with
  | nil =>
    cases l' with
    | nil =>
      obtain ⟨rfl, hs⟩ := hg h
      exact ⟨rfl, hs⟩
    | cons b' l' =>
      simp only [List.flatMap_nil, List.nil_append, List.flatMap_cons, List.append_assoc] at h
      exact absurd h.symm (hend _ _ _ _)
  | cons b l ih =>
    cases l' with
    | nil =>
      simp only [List.flatMap_nil, List.nil_append, List.flatMap_cons, List.append_assoc] at h
      exact absurd h (hend _ _ _ _)
    | cons b' l' =>
      simp only [List.flatMap_cons, List.append_assoc] at h
      obtain ⟨rfl, hrest⟩ := hf h
      simp only [List.append_assoc] at ih
      obtain ⟨heq, hs⟩ := ih l' hrest
      cases heq
      exact ⟨rfl, hs⟩

end PrefixFree

/-- Texts of a given length. -/
theorem prefixFree_length (n : ℕ) :
    PrefixFree fun p : {s : List α // s.length = n} => p.1 := by
  rintro ⟨s, hs⟩ ⟨s', hs'⟩ t t' h
  obtain ⟨heq, ht⟩ := List.append_inj h (hs.trans hs'.symm)
  exact ⟨Subtype.ext heq, ht⟩

/-- A code of one word. -/
theorem prefixFree_const (s : List α) : PrefixFree fun _ : Unit => s :=
  fun _ _ _ _ h => ⟨rfl, List.append_cancel_left h⟩

/-- Texts up to a letter that they do not have. -/
theorem prefixFree_until (a : α) : PrefixFree fun p : {s : List α // a ∉ s} => p.1 ++ [a] := by
  rintro ⟨s, hs⟩ ⟨s', hs'⟩ t t' h
  simp only [List.append_assoc, List.singleton_append, Subtype.mk.injEq] at h ⊢
  induction s generalizing s' with
  | nil =>
    cases s' with
    | nil =>
      cases h
      exact ⟨rfl, rfl⟩
    | cons b' s' =>
      cases h
      exact absurd List.mem_cons_self hs'
  | cons b s ih =>
    cases s' with
    | nil =>
      cases h
      exact absurd List.mem_cons_self hs
    | cons b' s' =>
      rw [List.cons_append, List.cons_append, List.cons.injEq] at h
      obtain ⟨rfl, h⟩ := h
      obtain ⟨rfl, ht⟩ := ih (fun ha => hs (List.mem_cons_of_mem _ ha)) s'
        (fun ha => hs' (List.mem_cons_of_mem _ ha)) h
      exact ⟨rfl, ht⟩

end GraduationServer
