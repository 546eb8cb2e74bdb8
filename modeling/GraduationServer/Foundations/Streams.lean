import Mathlib.Logic.Function.Basic
import Mathlib.Data.Nat.Notation
import Mathlib.Tactic.Common

/-!
# Streams

The streams that a process has opened, each with the file behind it. A stream is given out once: the
numbers from `next` on are not in use. A call on a stream that is null, or not open any more, has no
result.

Holders have one stream each, or none. The open streams are accounted for when each of them has a holder
(`Accounted`); a holder that opens or closes a stream of its own keeps this (`Accounted.use`), and a holder
may go when it has none (`isSome_iff_update_none`).
-/

namespace GraduationServer

/-- The open streams, with their files. -/
structure Streams (α : Type*) where
  next : ℕ
  file : ℕ → Option α
  unused : ∀ i : ℕ, next ≤ i → file i = none

namespace Streams

variable {α : Type*}

/-- No stream is open. -/
def empty : Streams α := ⟨0, fun _ => none, fun _ _ => rfl⟩

/-- The streams with a new one. -/
def opened (streams : Streams α) (file : α) : Streams α where
  next := streams.next + 1
  file := Function.update streams.file streams.next (some file)
  unused i hi := by
    rw [Function.update_of_ne (by omega)]
    exact streams.unused i (by omega)

/-- The file of a stream that a call may use. -/
def target (streams : Streams α) (fp : Option ℕ) : Option α := fp.bind streams.file

/-- The streams without one of them. -/
def closed (streams : Streams α) (i : ℕ) : Streams α where
  next := streams.next
  file := Function.update streams.file i none
  unused j hj := by
    rcases eq_or_ne j i with rfl | h
    · exact Function.update_self ..
    · rw [Function.update_of_ne h]
      exact streams.unused j hj

@[simp] theorem target_null (streams : Streams α) : streams.target none = none := rfl

@[simp] theorem target_opened (streams : Streams α) (file : α) :
    (streams.opened file).target (some streams.next) = some file := Function.update_self ..

/-- The other streams stay as they are. -/
theorem file_closed_of_ne (streams : Streams α) {i j : ℕ} (h : j ≠ i) :
    (streams.closed i).file j = streams.file j := Function.update_of_ne h ..

theorem file_opened_of_ne (streams : Streams α) (file : α) {j : ℕ} (h : j ≠ streams.next) :
    (streams.opened file).file j = streams.file j := Function.update_of_ne h ..

/-! ## Holders -/

/-- What a holder does with its stream: nothing, or it opens one when it has none, or closes it. -/
inductive Use (streams : Streams α) : Option ℕ → Streams α → Option ℕ → Prop
  | keep (fp : Option ℕ) : Use streams fp streams fp
  | gain (file : α) : Use streams none (streams.opened file) (some streams.next)
  | lose (i : ℕ) : Use streams (some i) (streams.closed i) none

/-- The streams that are open are those that are held, each by one holder. -/
structure Accounted {ι : Type*} (streams : Streams α) (held : ι → Option ℕ) : Prop where
  isSome_iff : ∀ i, (streams.file i).isSome = true ↔ ∃ k, held k = some i
  unique : ∀ k l i, held k = some i → held l = some i → k = l

variable {ι : Type*} {streams : Streams α} {held : ι → Option ℕ}

theorem accounted_empty : (empty : Streams α).Accounted fun _ : ι => none where
  isSome_iff i := iff_of_false nofun nofun
  unique k l i h := by cases h

theorem Accounted.lt_next (h : streams.Accounted held) {k : ι} {i : ℕ} (hk : held k = some i) :
    i < streams.next := by
  by_contra hlt
  have hopen := (h.isSome_iff i).2 ⟨k, hk⟩
  rw [streams.unused i (Nat.not_lt.1 hlt)] at hopen
  cases hopen

variable [DecidableEq ι]

/-- A holder without a stream that opens one holds it alone. -/
theorem Accounted.gain (h : streams.Accounted held) {k : ι} (hk : held k = none) (file : α) :
    (streams.opened file).Accounted (Function.update held k (some streams.next)) := by
  have hnew : ∀ l, held l ≠ some streams.next := fun l hl =>
    absurd (h.lt_next hl) (Nat.lt_irrefl _)
  have hheld : ∀ l i, Function.update held k (some streams.next) l = some i ↔
      (l = k ∧ i = streams.next) ∨ held l = some i := by
    intro l i
    rcases eq_or_ne l k with rfl | hlk
    · rw [Function.update_self, hk, Option.some_inj]
      simp [eq_comm]
    · rw [Function.update_of_ne hlk]
      simp [hlk]
  refine ⟨fun i => ?_, fun l m i hl hm => ?_⟩
  · rcases eq_or_ne i streams.next with rfl | hi
    · refine iff_of_true ?_ ⟨k, Function.update_self ..⟩
      rw [show (streams.opened file).file streams.next = some file from target_opened ..]
      rfl
    · rw [file_opened_of_ne _ _ hi, h.isSome_iff]
      refine exists_congr fun l => ?_
      rw [hheld, or_iff_right fun hand => hi hand.2]
  · rcases (hheld l i).1 hl with ⟨hlk, hi⟩ | hl'
    · rcases (hheld m i).1 hm with ⟨hmk, -⟩ | hm'
      · exact hlk.trans hmk.symm
      · exact absurd (hi ▸ hm') (hnew m)
    · rcases (hheld m i).1 hm with ⟨-, hi⟩ | hm'
      · exact absurd (hi ▸ hl') (hnew l)
      · exact h.unique l m i hl' hm'

/-- A holder that closes its stream has been the only one that held it. -/
theorem Accounted.lose (h : streams.Accounted held) {k : ι} {i : ℕ} (hk : held k = some i) :
    (streams.closed i).Accounted (Function.update held k none) := by
  have hheld : ∀ l j, Function.update held k none l = some j ↔ held l = some j ∧ j ≠ i := by
    intro l j
    rcases eq_or_ne l k with rfl | hlk
    · rw [Function.update_self, hk]
      exact iff_of_false nofun fun hand => hand.2 (Option.some_inj.1 hand.1).symm
    · rw [Function.update_of_ne hlk]
      refine ⟨fun hl => ⟨hl, ?_⟩, And.left⟩
      rintro rfl
      exact hlk (h.unique l k j hl hk)
  refine ⟨fun j => ?_, fun l m j hl hm => ?_⟩
  · simp only [hheld, exists_and_right, ← h.isSome_iff]
    rcases eq_or_ne j i with rfl | hj
    · rw [show (streams.closed j).file j = none from Function.update_self ..]
      exact iff_of_false nofun fun hand => hand.2 rfl
    · rw [file_closed_of_ne _ hj]
      exact (and_iff_left hj).symm
  · exact h.unique l m j ((hheld l j).1 hl).1 ((hheld m j).1 hm).1

/-- **A holder that uses its own stream keeps the account.** -/
theorem Accounted.use (h : streams.Accounted held) {k : ι} {streams' : Streams α} {fp : Option ℕ}
    (huse : streams.Use (held k) streams' fp) :
    streams'.Accounted (Function.update held k fp) := by
  generalize hk : held k = before at huse
  cases huse with
  | keep =>
    rw [← hk, Function.update_eq_self]
    exact h
  | gain file => exact h.gain hk file
  | lose i => exact h.lose hk

/-- **Without one of the holders the account is right exactly when that holder has no stream.** -/
theorem Accounted.isSome_iff_update_none (h : streams.Accounted held) (k : ι) :
    (∀ i, (streams.file i).isSome = true ↔ ∃ l, Function.update held k none l = some i) ↔
      held k = none := by
  constructor
  · intro hleft
    by_contra hne
    obtain ⟨i, hi⟩ := Option.ne_none_iff_exists'.1 hne
    obtain ⟨l, hl⟩ := (hleft i).1 ((h.isSome_iff i).2 ⟨k, hi⟩)
    rcases eq_or_ne l k with rfl | hlk
    · rw [Function.update_self] at hl
      cases hl
    · rw [Function.update_of_ne hlk] at hl
      exact hlk (h.unique l k i hl hi)
  · intro hk
    rw [← hk, Function.update_eq_self]
    exact h.isSome_iff

/-! ## Streams of their own -/

/-- No two holders have the same stream, and the next one is nobody's. There may be others, that nobody
holds any more. -/
structure Separate {ι : Type*} (streams : Streams α) (held : ι → Option ℕ) : Prop where
  lt_next : ∀ k i, held k = some i → i < streams.next
  unique : ∀ k l i, held k = some i → held l = some i → k = l

omit [DecidableEq ι] in
theorem separate_empty : (empty : Streams α).Separate fun _ : ι => none where
  lt_next k i h := by cases h
  unique k l i h := by cases h

omit [DecidableEq ι] in
/-- A holder leaves the streams of the others alone. -/
theorem Use.file_of_ne {streams' : Streams α} {fp fp' : Option ℕ} (h : streams.Use fp streams' fp')
    {i : ℕ} (hlt : i < streams.next) (hi : fp ≠ some i) : streams'.file i = streams.file i := by
  cases h with
  | keep => rfl
  | gain file => exact file_opened_of_ne _ _ (Nat.ne_of_lt hlt)
  | lose j => exact file_closed_of_ne _ fun hij => hi (congrArg some hij.symm)

/-- A holder may go, also when it has a stream. -/
theorem Separate.drop (h : streams.Separate held) (k : ι) :
    streams.Separate (Function.update held k none) := by
  have hheld : ∀ l i, Function.update held k none l = some i → held l = some i := by
    intro l i hl
    rcases eq_or_ne l k with rfl | hlk
    · rw [Function.update_self] at hl
      cases hl
    · rwa [Function.update_of_ne hlk] at hl
  exact ⟨fun l i hl => h.lt_next l i (hheld l i hl),
    fun l m i hl hm => h.unique l m i (hheld l i hl) (hheld m i hm)⟩

/-- **A holder that uses its own stream keeps the streams separate.** -/
theorem Separate.use (h : streams.Separate held) {k : ι} {streams' : Streams α} {fp : Option ℕ}
    (huse : streams.Use (held k) streams' fp) :
    streams'.Separate (Function.update held k fp) := by
  generalize hk : held k = before at huse
  cases huse with
  | keep =>
    rw [← hk, Function.update_eq_self]
    exact h
  | gain file =>
    have hnew : ∀ l, held l ≠ some streams.next := fun l hl =>
      absurd (h.lt_next l _ hl) (Nat.lt_irrefl _)
    refine ⟨fun l i hl => ?_, fun l m i hl hm => ?_⟩
    · rcases eq_or_ne l k with rfl | hlk
      · rw [Function.update_self] at hl
        cases hl
        exact Nat.lt_succ_self _
      · rw [Function.update_of_ne hlk] at hl
        exact Nat.lt_succ_of_lt (h.lt_next l i hl)
    · rcases eq_or_ne l k with rfl | hlk
      · rcases eq_or_ne m l with rfl | hml
        · rfl
        · rw [Function.update_self] at hl
          rw [Function.update_of_ne hml] at hm
          exact absurd (hm.trans hl.symm) (hnew m)
      · rw [Function.update_of_ne hlk] at hl
        rcases eq_or_ne m k with rfl | hmk
        · rw [Function.update_self] at hm
          exact absurd (hl.trans hm.symm) (hnew l)
        · rw [Function.update_of_ne hmk] at hm
          exact h.unique l m i hl hm
  | lose i =>
    have hdrop := h.drop k
    exact ⟨hdrop.lt_next, hdrop.unique⟩

end Streams

end GraduationServer
