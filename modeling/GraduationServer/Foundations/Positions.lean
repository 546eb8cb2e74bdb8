import Mathlib.Data.Int.Notation
import Mathlib.Data.List.Nodup
import Mathlib.Logic.Function.Basic
import Mathlib.Tactic.Common

/-!
# Elements that know their positions

A list without order may be kept in an array whose elements know their positions (`Placed`): then one of
them is removed in constant time, by putting the last one in its place (`swapRemove`) and telling that one
its new position (`Placed.swapRemove`).
-/

namespace GraduationServer

variable {α β : Type*}

/-- The list without the element at a position, where the last one is put. -/
def swapRemove (l : List α) (i : ℕ) : List α :=
  match l.getLast? with
  | none => []
  | some last => (l.set i last).dropLast

theorem swapRemove_of_getLast? {l : List α} {last : α} (h : l.getLast? = some last) (i : ℕ) :
    swapRemove l i = (l.set i last).dropLast := by
  rw [swapRemove, h]

theorem map_swapRemove (f : α → β) (l : List α) (i : ℕ) :
    swapRemove (l.map f) i = (swapRemove l i).map f := by
  unfold swapRemove
  rw [List.getLast?_map]
  cases l.getLast? with
  | none => rfl
  | some last =>
    dsimp only [Option.map_some]
    rw [← List.map_set, List.map_dropLast]

theorem getElem?_swapRemove {l : List α} {last : α} (h : l.getLast? = some last) (i j : ℕ) :
    (swapRemove l i)[j]? =
      if j + 1 < l.length then if j = i then some last else l[j]? else none := by
  rw [swapRemove_of_getLast? h, List.getElem?_dropLast, List.length_set, List.getElem?_set]
  by_cases hj : j + 1 < l.length
  · rw [if_pos (by omega), if_pos hj]
    by_cases hij : i = j
    · rw [if_pos hij, if_pos (by omega), if_pos hij.symm]
    · rw [if_neg hij, if_neg (Ne.symm hij)]
  · rw [if_neg (by omega), if_neg hj]

theorem swapRemove_of_end {l : List α} {i : ℕ} (h : i + 1 = l.length) : swapRemove l i = l.dropLast := by
  cases hl : l.getLast? with
  | none =>
    rw [List.getLast?_eq_none_iff.1 hl] at h
    cases h
  | some last =>
    refine List.ext_getElem? fun j => ?_
    rw [getElem?_swapRemove hl, List.getElem?_dropLast]
    by_cases hj : j + 1 < l.length
    · rw [if_pos hj, if_neg (by omega), if_pos (by omega)]
    · rw [if_neg hj, if_neg (by omega)]

/-- The elements of a list know their positions. -/
def Placed (l : List α) (index : α → ℤ) : Prop := ∀ (i : ℕ) a, l[i]? = some a → index a = i

variable {l : List α} {index : α → ℤ} {a b last : α} {i : ℕ}

theorem placed_nil (index : α → ℤ) : Placed [] index := by
  intro i a h
  cases h

theorem Placed.exists_of_mem (h : Placed l index) (ha : a ∈ l) :
    ∃ i : ℕ, index a = i ∧ l[i]? = some a := by
  obtain ⟨i, hi⟩ := List.mem_iff_getElem?.1 ha
  exact ⟨i, h i a hi, hi⟩

/-- No element is at two positions. -/
theorem Placed.eq_of_getElem? (h : Placed l index) {j : ℕ} (hi : l[i]? = some a) (hj : l[j]? = some a) :
    i = j :=
  Int.ofNat_inj.1 ((h i a hi).symm.trans (h j a hj))

theorem Placed.nodup (h : Placed l index) : l.Nodup := by
  refine List.nodup_iff_getElem?_ne_getElem?.2 fun i j hij hj heq => ?_
  obtain ⟨a, ha⟩ : ∃ a, l[j]? = some a := ⟨_, List.getElem?_eq_getElem hj⟩
  exact Nat.ne_of_lt hij (h.eq_of_getElem? (heq.trans ha) ha)

/-- What is kept of one element is changed at its position. -/
theorem Placed.map_set (h : Placed l index) (hi : l[i]? = some a) {f g : α → β}
    (hfg : ∀ b, b ≠ a → g b = f b) : (l.map f).set i (g a) = l.map g := by
  refine List.ext_getElem? fun j => ?_
  rw [List.getElem?_set, List.length_map, List.getElem?_map, List.getElem?_map]
  by_cases hij : i = j
  · subst hij
    rw [if_pos rfl, if_pos (List.getElem?_eq_some_iff.1 hi).1, hi, Option.map_some]
  · rw [if_neg hij]
    refine Option.map_congr fun b hb => (hfg b ?_).symm
    rintro rfl
    exact hij (h.eq_of_getElem? hi hb)

variable [DecidableEq α]

/-- **An element is put behind the others.** -/
theorem Placed.push (h : Placed l index) (ha : a ∉ l) :
    Placed (l ++ [a]) (Function.update index a l.length) := by
  intro i b hi
  rw [List.getElem?_append] at hi
  split_ifs at hi with hlt
  · have hb : b ≠ a := by
      rintro rfl
      exact ha (List.mem_of_getElem? hi)
    rw [Function.update_of_ne hb]
    exact h i b hi
  · obtain ⟨hlength, rfl⟩ : i - l.length = 0 ∧ a = b := by
      simpa [List.getElem?_singleton, eq_comm] using hi
    rw [Function.update_self]
    omega

/-- **An element is removed**, when the last one is told its new position. -/
theorem Placed.swapRemove (h : Placed l index) (hlast : l.getLast? = some last) (i : ℕ) :
    Placed (GraduationServer.swapRemove l i) (Function.update index last i) := by
  intro j b hj
  rw [getElem?_swapRemove hlast] at hj
  split_ifs at hj with hlt hij
  · cases hj
    rw [Function.update_self, hij]
  · have hend : l[l.length - 1]? = some last := by rw [← List.getLast?_eq_getElem?, hlast]
    have hb : b ≠ last := by
      rintro rfl
      have := h.eq_of_getElem? hj hend
      omega
    rw [Function.update_of_ne hb]
    exact h j b hj

omit [DecidableEq α] in
theorem Placed.mem_swapRemove (h : Placed l index) (hi : l[i]? = some a) :
    b ∈ GraduationServer.swapRemove l i ↔ b ∈ l ∧ b ≠ a := by
  obtain ⟨hlt, -⟩ := List.getElem?_eq_some_iff.1 hi
  obtain ⟨last, hlast⟩ : ∃ last, l.getLast? = some last := by
    cases hl : l.getLast? with
    | none => simp [List.getLast?_eq_none_iff.1 hl] at hlt
    | some last => exact ⟨last, rfl⟩
  have hend : l[l.length - 1]? = some last := by rw [← List.getLast?_eq_getElem?, hlast]
  rw [List.mem_iff_getElem?]
  constructor
  · rintro ⟨j, hj⟩
    rw [getElem?_swapRemove hlast] at hj
    split_ifs at hj with hjlt hij
    · cases hj
      refine ⟨List.mem_of_getElem? hend, ?_⟩
      rintro rfl
      have := h.eq_of_getElem? hend hi
      omega
    · refine ⟨List.mem_of_getElem? hj, ?_⟩
      rintro rfl
      exact hij (h.eq_of_getElem? hj hi)
  · rintro ⟨hb, hne⟩
    obtain ⟨j, hj⟩ := List.mem_iff_getElem?.1 hb
    obtain ⟨hjlt, -⟩ := List.getElem?_eq_some_iff.1 hj
    by_cases hjend : j + 1 < l.length
    · refine ⟨j, ?_⟩
      rw [getElem?_swapRemove hlast, if_pos hjend, if_neg, hj]
      rintro rfl
      exact hne (Option.some_inj.1 (hj.symm.trans hi))
    · obtain rfl : j = l.length - 1 := by omega
      obtain rfl : b = last := Option.some_inj.1 (hj.symm.trans hend)
      refine ⟨i, ?_⟩
      have hne' : i ≠ l.length - 1 := by
        intro heq
        rw [heq, hj] at hi
        exact hne (Option.some_inj.1 hi)
      rw [getElem?_swapRemove hlast, if_pos (by omega), if_pos rfl]

end GraduationServer
