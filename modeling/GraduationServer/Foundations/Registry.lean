import Mathlib.Data.List.Nodup
import Mathlib.Tactic.Common
import Std.Data.ExtTreeMap

/-!
# Registries of live clients

A table has an entry for each client that is live, under a key of the client. A client that comes up is
entered unless its key is taken, and a client that goes down is removed by its key. When live clients have
different keys this keeps one entry for each of them and no other (`Matches`).

* `Matches.up`, `Matches.down` and `Matches.change` are the steps;
* `matches_run` is the registry that only these reports change;
* a report is judged by labels of the clients, from which the keys are made (`legal_comp`).
-/

namespace GraduationServer

namespace Registry

variable {C κ σ α : Type*}

/-- What is reported about a client. -/
inductive Event (C : Type*)
  | up (c : C)
  | down (c : C)

/-! ## Legal reports -/

/-- A client that comes up has a label that no live client has, and one that goes down is live. -/
def Event.Allowed (label : C → α) (live : List C) : Event C → Prop
  | up c => ∀ d ∈ live, label d ≠ label c
  | down c => c ∈ live

/-- Keys that tell the labels apart judge a report as the labels do. -/
theorem Event.allowed_comp {f : α → κ} (hf : Function.Injective f) (label : C → α)
    (live : List C) (e : Event C) :
    e.Allowed (f ∘ label) live ↔ e.Allowed label live := by
  cases e with
  | up c => exact forall₂_congr fun d _ => hf.ne_iff
  | down c => rfl

section Reports

variable [DecidableEq C]

/-- The clients that are live after a report. -/
def Event.live (live : List C) : Event C → List C
  | up c => c :: live
  | down c => live.erase c

/-- The clients that are live after some reports. -/
def liveAfter (live : List C) (events : List (Event C)) : List C := events.foldl Event.live live

/-- Reports of which each is allowed. -/
def Legal (label : C → α) : List C → List (Event C) → Prop
  | _, [] => True
  | live, e :: events => e.Allowed label live ∧ Legal label (e.live live) events

variable {label : C → α} {live : List C} {events : List (Event C)}

/-- What is reported first is legal by itself. -/
theorem Legal.take (h : Legal label live events) (n : ℕ) : Legal label live (events.take n) := by
  induction events generalizing live n with
  | nil => rwa [List.take_nil]
  | cons e events ih =>
    cases n with
    | zero => trivial
    | succ n => exact ⟨h.1, ih h.2 n⟩

theorem liveAfter_append (live : List C) (events events' : List (Event C)) :
    liveAfter live (events ++ events') = liveAfter (liveAfter live events) events' :=
  List.foldl_append

/-- Reports behind others are judged by the clients that these leave. -/
theorem legal_append {events' : List (Event C)} :
    Legal label live (events ++ events') ↔
      Legal label live events ∧ Legal label (liveAfter live events) events' := by
  induction events generalizing live with
  | nil => simp [Legal, liveAfter]
  | cons e events ih => rw [List.cons_append, Legal, Legal, ih, and_assoc]; rfl

theorem legal_comp {f : α → κ} (hf : Function.Injective f) :
    Legal (f ∘ label) live events ↔ Legal label live events := by
  induction events generalizing live with
  | nil => rfl
  | cons e events ih => rw [Legal, Legal, ih, Event.allowed_comp hf]

end Reports

/-! ## Tables -/

section Tables

variable [Ord κ]

/-- A table with a key for each entry. -/
abbrev KeyedTable (κ σ : Type*) [Ord κ] := Std.ExtTreeMap κ σ compare

variable [Std.TransOrd κ] {key : C → κ} {Own : C → σ → Prop} {live : List C} {table : KeyedTable κ σ}

/-- The table has one entry for each live client, under its key, and no other entry. -/
structure Matches (key : C → κ) (Own : C → σ → Prop) (live : List C) (table : KeyedTable κ σ) :
    Prop where
  distinct : (live.map key).Nodup
  entry : ∀ c ∈ live, ∃ s, table[key c]? = some s ∧ Own c s
  only : ∀ k s, table[k]? = some s → ∃ c ∈ live, key c = k
  size : table.size = live.length

theorem matches_nil : Matches key Own [] (∅ : KeyedTable κ σ) where
  distinct := List.nodup_nil
  entry _ h := by cases h
  only _ _ h := by simp at h
  size := Std.ExtTreeMap.size_empty

/-- The entries are those of the live clients. -/
theorem Matches.own (h : Matches key Own live table) {c : C} (hc : c ∈ live) {s : σ}
    (hs : table[key c]? = some s) : Own c s := by
  obtain ⟨s', hs', hown⟩ := h.entry c hc
  obtain rfl : s' = s := Option.some_inj.1 (hs'.symm.trans hs)
  exact hown

theorem Matches.notMem_of_fresh (h : Matches key Own live table) {c : C}
    (hfresh : ∀ d ∈ live, key d ≠ key c) : key c ∉ table := by
  rw [Std.ExtTreeMap.mem_iff_isSome_getElem?, Option.isSome_iff_exists]
  rintro ⟨s, hs⟩
  obtain ⟨d, hd, hkey⟩ := h.only _ _ hs
  exact hfresh d hd hkey

theorem Matches.mem_of_live (h : Matches key Own live table) {c : C} (hc : c ∈ live) :
    key c ∈ table := by
  obtain ⟨s, hs, -⟩ := h.entry c hc
  rw [Std.ExtTreeMap.mem_iff_isSome_getElem?, hs]
  rfl

/-- When entries are made of their clients, the table has these entries and no other. -/
theorem Matches.getElem?_eq_some_iff {make : C → σ}
    (h : Matches key (fun c s => s = make c) live table) (k : κ) (s : σ) :
    table[k]? = some s ↔ ∃ c ∈ live, key c = k ∧ s = make c := by
  constructor
  · intro hs
    obtain ⟨c, hc, rfl⟩ := h.only k s hs
    exact ⟨c, hc, rfl, h.own hc hs⟩
  · rintro ⟨c, hc, rfl, rfl⟩
    obtain ⟨s, hs, rfl⟩ := h.entry c hc
    exact hs

end Tables

/-! ## Steps -/

section Steps

variable [Ord κ] [Std.TransOrd κ] [Std.LawfulEqOrd κ] {key : C → κ} {Own : C → σ → Prop}
  {live : List C} {table : KeyedTable κ σ} {c : C} {s : σ}

/-- **A client that comes up is entered.** -/
theorem Matches.up (h : Matches key Own live table) (hfresh : ∀ d ∈ live, key d ≠ key c)
    (hs : Own c s) : Matches key Own (c :: live) (table.insertIfNew (key c) s) := by
  have hnew : key c ∉ table := h.notMem_of_fresh hfresh
  have hself : (table.insertIfNew (key c) s)[key c]? = some s := by
    rw [Std.ExtTreeMap.getElem?_insertIfNew, if_pos ⟨Std.ReflCmp.compare_self, hnew⟩]
  have hother : ∀ k, key c ≠ k → (table.insertIfNew (key c) s)[k]? = table[k]? := by
    intro k hk
    simp [Std.ExtTreeMap.getElem?_insertIfNew, hk]
  refine ⟨?_, ?_, ?_, ?_⟩
  · rw [List.map_cons, List.nodup_cons]
    refine ⟨fun hmem => ?_, h.distinct⟩
    obtain ⟨d, hd, hkey⟩ := List.mem_map.1 hmem
    exact hfresh d hd hkey
  · intro d hd
    rcases List.mem_cons.1 hd with rfl | hd
    · exact ⟨s, hself, hs⟩
    · rw [hother _ (hfresh d hd).symm]
      exact h.entry d hd
  · intro k s' hs'
    rcases eq_or_ne (key c) k with hkey | hne
    · exact ⟨c, List.mem_cons_self, hkey⟩
    · rw [hother k hne] at hs'
      obtain ⟨d, hd, hkey⟩ := h.only k s' hs'
      exact ⟨d, List.mem_cons_of_mem _ hd, hkey⟩
  · rw [Std.ExtTreeMap.size_insertIfNew, if_neg hnew, h.size, List.length_cons]

/-- **A client that goes down is removed.** -/
theorem Matches.down [DecidableEq C] (h : Matches key Own live table) (hc : c ∈ live) :
    Matches key Own (live.erase c) (table.erase (key c)) := by
  have hnodup : live.Nodup := List.Nodup.of_map key h.distinct
  have hself : (table.erase (key c))[key c]? = none := Std.ExtTreeMap.getElem?_erase_self
  have hother : ∀ k, key c ≠ k → (table.erase (key c))[k]? = table[k]? := by
    intro k hk
    simp [Std.ExtTreeMap.getElem?_erase, hk]
  refine ⟨h.distinct.sublist (List.erase_sublist.map key), ?_, ?_, ?_⟩
  · intro d hd
    obtain ⟨hne, hd⟩ := hnodup.mem_erase_iff.1 hd
    rw [hother _ fun hkey => hne (List.inj_on_of_nodup_map h.distinct hd hc hkey.symm)]
    exact h.entry d hd
  · intro k s' hs'
    rcases eq_or_ne (key c) k with rfl | hne
    · cases hself.symm.trans hs'
    · rw [hother k hne] at hs'
      obtain ⟨d, hd, rfl⟩ := h.only k s' hs'
      exact ⟨d, hnodup.mem_erase_iff.2 ⟨fun heq => hne (heq ▸ rfl), hd⟩, rfl⟩
  · rw [Std.ExtTreeMap.size_erase, if_pos (Std.ExtTreeMap.contains_iff_mem.2 (h.mem_of_live hc)),
      h.size, List.length_erase_of_mem hc]

/-- **The entry of a live client is changed.** -/
theorem Matches.change (h : Matches key Own live table) (hc : c ∈ live) (hs : Own c s) :
    Matches key Own live (table.insert (key c) s) := by
  have hself : (table.insert (key c) s)[key c]? = some s := Std.ExtTreeMap.getElem?_insert_self
  have hother : ∀ k, key c ≠ k → (table.insert (key c) s)[k]? = table[k]? := by
    intro k hk
    simp [Std.ExtTreeMap.getElem?_insert, hk]
  refine ⟨h.distinct, ?_, ?_, ?_⟩
  · intro d hd
    rcases eq_or_ne (key c) (key d) with hkey | hne
    · obtain rfl : c = d := List.inj_on_of_nodup_map h.distinct hc hd hkey
      exact ⟨s, hself, hs⟩
    · rw [hother _ hne]
      exact h.entry d hd
  · intro k s' hs'
    rcases eq_or_ne (key c) k with hkey | hne
    · exact ⟨c, hc, hkey⟩
    · rw [hother k hne] at hs'
      exact h.only k s' hs'
  · rw [Std.ExtTreeMap.size_insert, if_pos (Std.ExtTreeMap.contains_iff_mem.2 (h.mem_of_live hc)),
      h.size]

end Steps

/-! ## Runs -/

section Runs

variable [Ord κ] [Std.TransOrd κ] [Std.LawfulEqOrd κ] [DecidableEq C] {key : C → κ}
  {Own : C → σ → Prop} {make : C → σ} {live : List C} {table : KeyedTable κ σ}

/-- A report changes the table. -/
def Event.apply (key : C → κ) (make : C → σ) (table : KeyedTable κ σ) : Event C → KeyedTable κ σ
  | up c => table.insertIfNew (key c) (make c)
  | down c => table.erase (key c)

variable (Own) in
/-- **The table matches the live clients after every run of legal reports**, by induction with a step
for each report. -/
theorem matches_run (hmake : ∀ c, Own c (make c)) {events : List (Event C)}
    (h : Matches key Own live table) (hlegal : Legal key live events) :
    Matches key Own (liveAfter live events) (events.foldl (Event.apply key make) table) := by
  induction events generalizing live table with
  | nil => exact h
  | cons e events ih =>
    obtain ⟨hallowed, hlegal⟩ := hlegal
    refine ih ?_ hlegal
    cases e with
    | up c => exact h.up hallowed (hmake c)
    | down c => exact h.down hallowed

end Runs

end Registry

end GraduationServer
