import GraduationServer.Foundations.OrderedSets
import GraduationServer.Foundations.Runs
import GraduationServer.Foundations.Simulations
import Mathlib.Data.List.Perm.Basic
import Mathlib.Data.Prod.Lex
import Mathlib.Logic.Function.Basic

/-!
# The timers of a loop

`TimerQueue` (`net/TimerQueue.h`, `net/TimerQueue.cc`) with `Timer` (`net/Timer.h`, `net/Timer.cc`). The
timers are objects on the heap. A timer that waits is in two sets: `timers_`, by its expiration, and
`activeTimers_`, by its address and sequence number. When the clock of the queue rings, the expired timers
leave both sets, their callbacks are called one after the other, and then those that repeat are inserted
again and the others are deleted.

A timer is created before the loop inserts it. A callback may insert and cancel timers, also those that have
expired with it: so the inputs of a queue come between its callbacks.

A step is `none` when an assertion fails or a deleted timer is used. That does not happen
(`TimerQueue.assertions_hold`), and then the clock is never set too late. The steps are those of the loop:
`addTimer` itself still reads the sequence number of the timer when it has handed it over, which on another
thread than that of the loop may come behind its deletion.
-/

namespace GraduationServer

namespace Net

open OrderedSet

/-! ## Timers -/

/-- `Timer`, with its times in microseconds; the interval is what `addTime` adds. -/
structure Timer where
  expiration : ℤ
  interval : ℕ
  repeat_ : Bool
  sequence : ℕ
  deriving DecidableEq

/-- `restart`; the invalid time is zero. -/
def Timer.restart (t : Timer) (now : ℤ) : Timer :=
  { t with expiration := if t.repeat_ then now + t.interval else 0 }

/-- `TimerId` and `ActiveTimer`: the address of a timer, and its sequence number. -/
structure TimerId where
  timer : ℕ
  sequence : ℕ
  deriving DecidableEq

/-- `Entry`: an expiration and the address of a timer. -/
structure Entry where
  time : ℤ
  timer : ℕ
  deriving DecidableEq

/-- Entries are ordered by their times, and by their addresses at one time. -/
instance : LinearOrder Entry :=
  LinearOrder.lift' (fun e : Entry => toLex (e.time, e.timer)) fun e f h => by
    cases e
    cases f
    cases h
    rfl

theorem Entry.lt_iff {e f : Entry} :
    e < f ↔ e.time < f.time ∨ e.time = f.time ∧ e.timer < f.timer :=
  Prod.Lex.toLex_lt_toLex

theorem Entry.time_le {e f : Entry} (h : e ≤ f) : e.time ≤ f.time := by
  rcases h.eq_or_lt with rfl | hlt
  · exact le_rfl
  · rcases Entry.lt_iff.1 hlt with hlt | ⟨heq, -⟩
    · exact hlt.le
    · exact heq.le

/-- The greatest address. -/
def UINTPTR_MAX : ℕ := 0xFFFFFFFFFFFFFFFF

/-! ## The queue -/

/-- What `handleRead` has at hand: the time, the expired timers, and those of them whose callbacks have not
been called. -/
structure Batch where
  now : ℤ
  expired : List Entry
  left : List Entry

/-- The members of a queue, with the timers on the heap, those that the loop is to insert, and the expiration
for which the clock has been set. `callingExpiredTimers_` is true while there is a batch. -/
structure TimerQueue where
  heap : ℕ → Option Timer := fun _ => none
  numCreated : ℕ := 0
  queued : List ℕ := []
  timers : List Entry := []
  activeTimers : List TimerId := []
  cancelingTimers : List TimerId := []
  batch : Option Batch := none
  armed : Option ℤ := none

/-- What is seen of a queue. -/
inductive TimerEvent
  | added (id : TimerId) (timer : Timer)
  | cancelled (id : TimerId)
  | rang (now : ℤ)
  | ran (id : TimerId)
  | finished (now : ℤ)
  deriving DecidableEq

namespace TimerQueue

variable (q : TimerQueue)

/-- What is at an address of the heap is changed. -/
def store (timer : ℕ) (o : Option Timer) : TimerQueue :=
  { q with heap := Function.update q.heap timer o }

/-- `resetTimerfd`. What is kept is the expiration that it is called with; `howMuchTimeFromNow` makes the
clock ring then, or 100 microseconds from the call when that is later. -/
def resetTimerfd (expiration : ℤ) : TimerQueue := { q with armed := some expiration }

/-- `timers_.size() == activeTimers_.size()`. -/
def agree : Bool := q.timers.length = q.activeTimers.length

/-- `insert`, with whether the timer is the earliest. -/
def insert (timer : ℕ) : Option (Bool × TimerQueue) :=
  (q.heap timer).bind fun t =>
    let entry : Entry := ⟨t.expiration, timer⟩
    let earliestChanged := q.timers.head?.all fun first => t.expiration < first.time
    if q.agree ∧ entry ∉ q.timers ∧ ⟨timer, t.sequence⟩ ∉ q.activeTimers then
      some (earliestChanged, { q with
        timers := q.timers.orderedInsert (· ≤ ·) entry
        activeTimers := ⟨timer, t.sequence⟩ :: q.activeTimers })
    else none

/-- `addTimerInLoop`. -/
def addTimerInLoop (timer : ℕ) : Option TimerQueue :=
  (q.insert timer).bind fun p =>
    if p.1 then (p.2.heap timer).map fun t => p.2.resetTimerfd t.expiration else some p.2

/-- `cancelInLoop`. -/
def cancelInLoop (id : TimerId) : Option TimerQueue :=
  if q.agree then
    if id ∈ q.activeTimers then
      (q.heap id.timer).bind fun t =>
        if ⟨t.expiration, id.timer⟩ ∈ q.timers then
          some (store { q with
            timers := q.timers.erase ⟨t.expiration, id.timer⟩
            activeTimers := q.activeTimers.erase id } id.timer none)
        else none
    else if q.batch.isSome then some { q with cancelingTimers := id :: q.cancelingTimers }
    else some q
  else none

/-- An expired timer leaves `activeTimers_`. -/
def eraseActive (active : List TimerId) (e : Entry) : Option (List TimerId) :=
  (q.heap e.timer).bind fun t =>
    if ⟨e.timer, t.sequence⟩ ∈ active then some (active.erase ⟨e.timer, t.sequence⟩) else none

/-- `getExpired`. -/
def getExpired (now : ℤ) : Option (List Entry × TimerQueue) :=
  let sentry : Entry := ⟨now, UINTPTR_MAX⟩
  let rest := q.timers.dropWhile (· < sentry)
  let expired := q.timers.takeWhile (· < sentry)
  if q.agree ∧ rest.head?.all fun e => now < e.time then
    (expired.foldlM q.eraseActive q.activeTimers).bind fun activeTimers =>
      if rest.length = activeTimers.length then
        some (expired, { q with timers := rest, activeTimers })
      else none
  else none

/-- `handleRead` up to the callbacks. The clock rings once. -/
def alarm (now : ℤ) : Option TimerQueue :=
  (q.getExpired now).map fun p =>
    { p.2 with batch := some ⟨now, p.1, p.1⟩, cancelingTimers := [], armed := none }

/-- `reset` for one of the expired timers. -/
def resetOne (now : ℤ) (q : TimerQueue) (e : Entry) : Option TimerQueue :=
  (q.heap e.timer).bind fun t =>
    if t.repeat_ ∧ ⟨e.timer, t.sequence⟩ ∉ q.cancelingTimers then
      ((q.store e.timer (some (t.restart now))).insert e.timer).map Prod.snd
    else some (q.store e.timer none)

/-- The end of `reset`: the clock is set for the earliest timer, if its time is valid. -/
def setClock : Option TimerQueue :=
  match q.timers.head? with
  | none => some q
  | some first => (q.heap first.timer).map fun t =>
    if 0 < t.expiration then q.resetTimerfd t.expiration else q

/-- `reset`. -/
def reset (expired : List Entry) (now : ℤ) : Option TimerQueue :=
  (expired.foldlM (resetOne now) q).bind setClock

end TimerQueue

/-- The inputs of a queue: a timer is created, a timer that has been created is inserted, a timer is
cancelled, the clock rings, the next callback is called, and the last one returns. -/
inductive TimerInput
  | create (timer : ℕ) (time : ℤ) (interval : ℕ) (repeat_ : Bool)
  | add (timer : ℕ)
  | cancel (id : TimerId)
  | alarm (now : ℤ)
  | callback
  | finish

namespace TimerQueue

/-- A step. -/
def step (q : TimerQueue) : TimerInput → Option (List TimerEvent × TimerQueue)
  | .create timer time interval repeat_ =>
    some ([], store { q with
      numCreated := q.numCreated + 1
      queued := q.queued ++ [timer] } timer (some ⟨time, interval, repeat_, q.numCreated + 1⟩))
  | .add timer =>
    (q.heap timer).bind fun t =>
      (addTimerInLoop { q with queued := q.queued.erase timer } timer).map fun q' =>
        ([.added ⟨timer, t.sequence⟩ t], q')
  | .cancel id => (q.cancelInLoop id).map fun q' => ([.cancelled id], q')
  | .alarm now => (q.alarm now).map fun q' => ([.rang now], q')
  | .callback =>
    match q.batch with
    | some ⟨now, expired, e :: left⟩ => (q.heap e.timer).map fun t =>
      ([.ran ⟨e.timer, t.sequence⟩], { q with batch := some ⟨now, expired, left⟩ })
    | _ => some ([], q)
  | .finish =>
    match q.batch with
    | some ⟨now, expired, []⟩ =>
      (reset { q with batch := none } expired now).map fun q' => ([.finished now], q')
    | _ => some ([], q)

/-- What is possible: a timer is created where there is none, and inserted once; the clock rings at a valid
time, and not while callbacks are called. -/
def Possible (q : TimerQueue) : TimerInput → Prop
  | .create timer _ _ _ => q.heap timer = none ∧ timer < UINTPTR_MAX
  | .add timer => timer ∈ q.queued
  | .alarm now => q.batch = none ∧ 0 < now
  | _ => True

instance (q : TimerQueue) : (i : TimerInput) → Decidable (q.Possible i)
  | .create timer _ _ _ => inferInstanceAs (Decidable (q.heap timer = none ∧ timer < UINTPTR_MAX))
  | .add timer => inferInstanceAs (Decidable (timer ∈ q.queued))
  | .alarm now => inferInstanceAs (Decidable (q.batch = none ∧ 0 < now))
  | .cancel _ | .callback | .finish => isTrue trivial

/-- The expired timers of the batch at hand. -/
def expired (q : TimerQueue) : List Entry := q.batch.elim [] Batch.expired

/-- The expired timers whose callbacks have not been called. -/
def left (q : TimerQueue) : List Entry := q.batch.elim [] Batch.left

/-! ## What a queue keeps -/

/-- The timer of an entry. -/
def idOf (heap : ℕ → Option Timer) (e : Entry) : TimerId :=
  ⟨e.timer, (heap e.timer).elim 0 Timer.sequence⟩

/-- The timers that wait, the expired ones that are at hand, and those that are to be inserted are
different objects; the entries have the times of their timers, in order, and the two sets have the same
timers. -/
structure Keeps (q : TimerQueue) (away : List Entry) : Prop where
  ascending : Ascending q.timers
  scheduled : ∀ e ∈ q.timers, ∃ t, q.heap e.timer = some t ∧ t.expiration = e.time
  active : q.activeTimers.Perm (q.timers.map (idOf q.heap))
  addresses : (q.timers.map Entry.timer ++ (away.map Entry.timer ++ q.queued)).Nodup
  created : ∀ a t, q.heap a = some t → t.sequence ≤ q.numCreated ∧ a < UINTPTR_MAX
  queued : ∀ a ∈ q.queued, ∃ t, q.heap a = some t
  away : ∀ e ∈ away, ∃ t, q.heap e.timer = some t ∧ t.expiration = e.time

/-- A queue with another timer that waits. -/
def inserted (q : TimerQueue) (timer : ℕ) (t : Timer) : TimerQueue :=
  { q with
    timers := q.timers.orderedInsert (· ≤ ·) ⟨t.expiration, timer⟩
    activeTimers := ⟨timer, t.sequence⟩ :: q.activeTimers }

/-- An address that is none of those. -/
structure Fresh (q : TimerQueue) (away : List Entry) (timer : ℕ) : Prop where
  timers : ∀ e ∈ q.timers, e.timer ≠ timer
  away : ∀ e ∈ away, e.timer ≠ timer
  queued : timer ∉ q.queued

section Keeps

variable {q q' : TimerQueue} {away : List Entry} {e f : Entry} {timer : ℕ} {t : Timer} {o : Option Timer}

theorem idOf_eq (h : q.heap e.timer = some t) : idOf q.heap e = ⟨e.timer, t.sequence⟩ := by
  rw [idOf, h]
  rfl

@[simp] theorem heap_store_self : (q.store timer o).heap timer = o := Function.update_self ..

theorem heap_store_of_ne {a : ℕ} (h : a ≠ timer) : (q.store timer o).heap a = q.heap a :=
  Function.update_of_ne h ..

theorem idOf_store (h : e.timer ≠ timer) : idOf (q.store timer o).heap e = idOf q.heap e := by
  rw [idOf, idOf, heap_store_of_ne h]

theorem Keeps.agree (h : q.Keeps away) : q.agree := by
  rw [TimerQueue.agree, h.active.length_eq, List.length_map, decide_eq_true_eq]

/-- What is active is the timer of an entry. -/
theorem Keeps.exists_entry (h : q.Keeps away) {id : TimerId} (hid : id ∈ q.activeTimers) :
    ∃ t, q.heap id.timer = some t ∧ t.sequence = id.sequence ∧
      (⟨t.expiration, id.timer⟩ : Entry) ∈ q.timers := by
  obtain ⟨e, he, rfl⟩ := List.mem_map.1 (h.active.mem_iff.1 hid)
  obtain ⟨t, ht, htime⟩ := h.scheduled e he
  refine ⟨t, ht, ?_, ?_⟩
  · rw [idOf_eq ht]
  · rw [htime]
    exact he

theorem fresh_of_nodup
    (h : (timer :: (q.timers.map Entry.timer ++ (away.map Entry.timer ++ q.queued))).Nodup) :
    q.Fresh away timer := by
  have hmem := (List.nodup_cons.1 h).1
  simp only [List.mem_append, List.mem_map, not_or, not_exists, not_and] at hmem
  exact ⟨hmem.1, hmem.2.1, hmem.2.2⟩

theorem Fresh.nodup (hfresh : q.Fresh away timer) (h : q.Keeps away) :
    (timer :: (q.timers.map Entry.timer ++ (away.map Entry.timer ++ q.queued))).Nodup := by
  refine List.nodup_cons.2 ⟨?_, h.addresses⟩
  simp only [List.mem_append, List.mem_map, not_or, not_exists, not_and]
  exact ⟨hfresh.timers, hfresh.away, hfresh.queued⟩

/-- The heap may be changed where no timer of the queue is. -/
theorem Keeps.store (h : q.Keeps away) (hfresh : q.Fresh away timer)
    (ho : ∀ t, o = some t → t.sequence ≤ q.numCreated ∧ timer < UINTPTR_MAX) :
    (q.store timer o).Keeps away where
  ascending := h.ascending
  scheduled e he := by
    rw [heap_store_of_ne (hfresh.timers e he)]
    exact h.scheduled e he
  active := by
    have hids : q.timers.map (idOf (q.store timer o).heap) = q.timers.map (idOf q.heap) :=
      List.map_congr_left fun e he => idOf_store (hfresh.timers e he)
    exact hids ▸ h.active
  addresses := h.addresses
  created a t ha := by
    by_cases heq : a = timer
    · subst heq
      rw [heap_store_self] at ha
      exact ho t ha
    · rw [heap_store_of_ne heq] at ha
      exact h.created a t ha
  queued a ha := by
    rw [heap_store_of_ne (ne_of_mem_of_not_mem ha hfresh.queued)]
    exact h.queued a ha
  away e he := by
    rw [heap_store_of_ne (hfresh.away e he)]
    exact h.away e he

/-- **A fresh timer is inserted**, and it is the earliest when all others are later. -/
theorem Keeps.insert (h : q.Keeps away) (ht : q.heap timer = some t) (hfresh : q.Fresh away timer) :
    q.insert timer = some (q.timers.head?.all fun first => t.expiration < first.time,
        q.inserted timer t) ∧
      (q.inserted timer t).Keeps away := by
  have hentry : (⟨t.expiration, timer⟩ : Entry) ∉ q.timers := fun hmem => hfresh.timers _ hmem rfl
  have hactive : ⟨timer, t.sequence⟩ ∉ q.activeTimers := by
    intro hmem
    obtain ⟨t', -, -, hmem'⟩ := h.exists_entry hmem
    exact hfresh.timers _ hmem' rfl
  have hperm := List.perm_orderedInsert (· ≤ ·) (⟨t.expiration, timer⟩ : Entry) q.timers
  refine ⟨?_, ?_, ?_, ?_, ?_, h.created, h.queued, h.away⟩
  · rw [TimerQueue.insert, ht, Option.bind_some, if_pos ⟨h.agree, hentry, hactive⟩, inserted]
  · exact h.ascending.orderedInsert hentry
  · intro e he
    rcases List.mem_cons.1 (hperm.mem_iff.1 he) with rfl | he
    · exact ⟨t, ht, rfl⟩
    · exact h.scheduled e he
  · have hids := hperm.map (idOf q.heap)
    have hid : idOf q.heap ⟨t.expiration, timer⟩ = ⟨timer, t.sequence⟩ := idOf_eq ht
    rw [List.map_cons, hid] at hids
    exact (h.active.cons _).trans hids.symm
  · refine (List.Perm.nodup_iff ?_).2 (hfresh.nodup h)
    exact (hperm.map Entry.timer).append_right _

/-- A timer that the loop is to insert is fresh when it has left the queue of the loop. -/
theorem Keeps.dequeue (h : q.Keeps away) (hqueued : timer ∈ q.queued) :
    Keeps { q with queued := q.queued.erase timer } away ∧
      Fresh { q with queued := q.queued.erase timer } away timer := by
  have hperm : (q.timers.map Entry.timer ++ (away.map Entry.timer ++ q.queued)).Perm
      (timer :: (q.timers.map Entry.timer ++ (away.map Entry.timer ++ q.queued.erase timer))) := by
    refine List.Perm.trans ?_ List.perm_middle
    refine List.Perm.append_left _ (List.Perm.trans ?_ List.perm_middle)
    exact List.Perm.append_left _ (List.perm_cons_erase hqueued)
  have hnodup := hperm.nodup_iff.1 h.addresses
  refine ⟨⟨h.ascending, h.scheduled, h.active, (List.nodup_cons.1 hnodup).2, h.created, ?_, h.away⟩,
    fresh_of_nodup hnodup⟩
  intro a ha
  exact h.queued a (List.mem_of_mem_erase ha)

/-- An expired timer is fresh when it is at hand no more. -/
theorem Keeps.release (h : q.Keeps (e :: away)) : q.Keeps away ∧ q.Fresh away e.timer := by
  have hperm : (q.timers.map Entry.timer ++ ((e :: away).map Entry.timer ++ q.queued)).Perm
      (e.timer :: (q.timers.map Entry.timer ++ (away.map Entry.timer ++ q.queued))) := by
    rw [List.map_cons, List.cons_append]
    exact List.perm_middle
  have hnodup := hperm.nodup_iff.1 h.addresses
  refine ⟨⟨h.ascending, h.scheduled, h.active, (List.nodup_cons.1 hnodup).2, h.created, h.queued, ?_⟩,
    fresh_of_nodup hnodup⟩
  exact fun f hf => h.away f (List.mem_cons_of_mem _ hf)

/-- A timer that waits is fresh when it has left both sets. -/
theorem Keeps.erase (h : q.Keeps away) (he : e ∈ q.timers) :
    Keeps { q with
      timers := q.timers.erase e
      activeTimers := q.activeTimers.erase (idOf q.heap e) } away ∧
    Fresh { q with
      timers := q.timers.erase e
      activeTimers := q.activeTimers.erase (idOf q.heap e) } away e.timer := by
  have htimers := List.perm_cons_erase he
  have hperm : (q.timers.map Entry.timer ++ (away.map Entry.timer ++ q.queued)).Perm
      (e.timer :: ((q.timers.erase e).map Entry.timer ++ (away.map Entry.timer ++ q.queued))) :=
    (htimers.map Entry.timer).append_right _
  have hnodup := hperm.nodup_iff.1 h.addresses
  refine ⟨⟨h.ascending.sublist List.erase_sublist, ?_, ?_, (List.nodup_cons.1 hnodup).2, h.created,
    h.queued, h.away⟩, fresh_of_nodup hnodup⟩
  · exact fun f hf => h.scheduled f (List.mem_of_mem_erase hf)
  · have hactive := (h.active.trans (htimers.map _)).erase (idOf q.heap e)
    rwa [List.map_cons, List.erase_cons_head] at hactive

/-- An expired timer leaves `activeTimers_`. -/
theorem foldlM_eraseActive {l : List Entry} {active rest : List TimerId}
    (hl : ∀ e ∈ l, ∃ t, q.heap e.timer = some t ∧ t.expiration = e.time)
    (hactive : active.Perm (l.map (idOf q.heap) ++ rest)) :
    ∃ active', l.foldlM q.eraseActive active = some active' ∧ active'.Perm rest := by
  induction l generalizing active with
  | nil => exact ⟨active, rfl, hactive⟩
  | cons e l ih =>
    obtain ⟨t, ht, -⟩ := hl e List.mem_cons_self
    have hid : idOf q.heap e = ⟨e.timer, t.sequence⟩ := idOf_eq ht
    rw [List.map_cons, hid, List.cons_append] at hactive
    have herase := hactive.erase ⟨e.timer, t.sequence⟩
    rw [List.erase_cons_head] at herase
    have hmem : ⟨e.timer, t.sequence⟩ ∈ active := hactive.mem_iff.2 List.mem_cons_self
    have hstep : q.eraseActive active e = some (active.erase ⟨e.timer, t.sequence⟩) := by
      rw [eraseActive, ht, Option.bind_some, if_pos hmem]
    rw [List.foldlM_cons, hstep]
    exact ih (fun f hf => hl f (List.mem_cons_of_mem _ hf)) herase

/-- **What has expired leaves both sets**, and what waits behind it has not. -/
theorem Keeps.getExpired (h : q.Keeps []) (now : ℤ) :
    ∃ expired q', q.getExpired now = some (expired, q') ∧ q'.Keeps expired ∧
      (∀ e, e ∈ expired ↔ e ∈ q.timers ∧ e.time ≤ now) ∧
      (∀ e, e ∈ q'.timers ↔ e ∈ q.timers ∧ now < e.time) ∧
      ∃ activeTimers, q' = { q with timers := q'.timers, activeTimers } := by
  set sentry : Entry := ⟨now, UINTPTR_MAX⟩ with hsentry
  have hbelow : ∀ e ∈ q.timers, e < sentry ↔ e.time ≤ now := by
    intro e he
    obtain ⟨t, ht, -⟩ := h.scheduled e he
    have hlt := (h.created e.timer t ht).2
    rw [Entry.lt_iff, hsentry]
    constructor
    · rintro (hlt | ⟨heq, -⟩)
      · exact hlt.le
      · exact heq.le
    · intro hle
      exact (lt_or_eq_of_le hle).imp id fun heq => ⟨heq, hlt⟩
  have hsplit : q.timers.takeWhile (· < sentry) ++ q.timers.dropWhile (· < sentry) = q.timers :=
    List.takeWhile_append_dropWhile
  have hexpired : ∀ e, e ∈ q.timers.takeWhile (· < sentry) ↔ e ∈ q.timers ∧ e.time ≤ now := by
    intro e
    rw [h.ascending.mem_takeWhile]
    exact and_congr_right fun he => hbelow e he
  have hrest : ∀ e, e ∈ q.timers.dropWhile (· < sentry) ↔ e ∈ q.timers ∧ now < e.time := by
    intro e
    constructor
    · intro he
      have hmem : e ∈ q.timers := (List.dropWhile_sublist _).subset he
      refine ⟨hmem, lt_of_not_ge fun hle => ?_⟩
      exact absurd ((hbelow e hmem).2 hle) (not_lt.2 (h.ascending.le_of_mem_dropWhile he))
    · rintro ⟨hmem, hlt⟩
      rw [← hsplit] at hmem
      refine (List.mem_append.1 hmem).resolve_left fun htake => ?_
      exact absurd ((hexpired e).1 htake).2 (not_le.2 hlt)
  have hactive : q.activeTimers.Perm
      ((q.timers.takeWhile (· < sentry)).map (idOf q.heap) ++
        (q.timers.dropWhile (· < sentry)).map (idOf q.heap)) := by
    rw [← List.map_append, hsplit]
    exact h.active
  obtain ⟨activeTimers, hfold, hperm⟩ := foldlM_eraseActive
    (fun e he => h.scheduled e ((hexpired e).1 he).1) hactive
  have hhead : (q.timers.dropWhile (· < sentry)).head?.all fun e => now < e.time := by
    cases hfirst : (q.timers.dropWhile (· < sentry)).head? with
    | none => rfl
    | some e => simpa using ((hrest e).1 (List.mem_of_mem_head? hfirst)).2
  have hlength : (q.timers.dropWhile (· < sentry)).length = activeTimers.length := by
    rw [hperm.length_eq, List.length_map]
  refine ⟨q.timers.takeWhile (· < sentry),
    { q with timers := q.timers.dropWhile (· < sentry), activeTimers }, ?_, ⟨?_, ?_, hperm, ?_,
      h.created, h.queued, ?_⟩, hexpired, hrest, activeTimers, rfl⟩
  · rw [TimerQueue.getExpired, if_pos ⟨h.agree, hhead⟩, hfold, Option.bind_some, if_pos hlength]
  · exact h.ascending.sublist (List.dropWhile_sublist _)
  · exact fun e he => h.scheduled e ((hrest e).1 he).1
  · have haddresses := h.addresses
    rw [← hsplit, List.map_append, List.map_nil, List.nil_append, List.append_assoc] at haddresses
    refine (List.Perm.nodup_iff ?_).1 haddresses
    rw [← List.append_assoc, ← List.append_assoc]
    exact List.perm_append_comm.append_right _
  · exact fun e he => h.scheduled e ((hexpired e).1 he).1

/-- Whether an expired timer is inserted again. -/
def Again (q : TimerQueue) (e : Entry) (t : Timer) : Prop :=
  t.repeat_ ∧ ⟨e.timer, t.sequence⟩ ∉ q.cancelingTimers

/-- What `reset` leaves of an expired timer. -/
theorem Keeps.resetOne (h : q.Keeps (e :: away)) (now : ℤ) :
    ∃ t q', q.heap e.timer = some t ∧ TimerQueue.resetOne now q e = some q' ∧ q'.Keeps away ∧
      (q.Again e t ∧
          q' = (q.store e.timer (some (t.restart now))).inserted e.timer (t.restart now) ∨
        ¬ q.Again e t ∧ q' = q.store e.timer none) := by
  obtain ⟨t, ht, -⟩ := h.away e List.mem_cons_self
  obtain ⟨hkeeps, hfresh⟩ := h.release
  by_cases hagain : q.Again e t
  · have hstore : (q.store e.timer (some (t.restart now))).Keeps away := by
      apply hkeeps.store hfresh
      rintro _ ⟨⟩
      exact h.created e.timer t ht
    have hfresh' : (q.store e.timer (some (t.restart now))).Fresh away e.timer :=
      ⟨hfresh.timers, hfresh.away, hfresh.queued⟩
    obtain ⟨hinsert, hinserted⟩ := hstore.insert heap_store_self hfresh'
    refine ⟨t, _, ht, ?_, hinserted, .inl ⟨hagain, rfl⟩⟩
    rw [TimerQueue.resetOne, ht, Option.bind_some, hinsert]
    exact if_pos hagain
  · refine ⟨t, _, ht, ?_, hkeeps.store hfresh (by simp), .inr ⟨hagain, rfl⟩⟩
    rw [TimerQueue.resetOne, ht, Option.bind_some]
    exact if_neg hagain

end Keeps

/-! ## The clock -/

/-- The clock is not set too late. While callbacks are called that is so for timers without a valid time,
for which the end of the batch does not set it. -/
def Covers (q : TimerQueue) : Prop :=
  ∀ first, q.timers.head? = some first → q.batch = none ∨ first.time ≤ 0 →
    ∃ time, q.armed = some time ∧ time ≤ first.time

/-- Everything that a queue keeps. -/
structure Sound (q : TimerQueue) : Prop extends Keeps q q.expired where
  left : q.left <:+ q.expired
  now : ∀ b, q.batch = some b → 0 < b.now
  covers : q.Covers

section Sound

variable {q q' : TimerQueue} {away : List Entry} {e : Entry} {timer : ℕ} {t : Timer}

theorem sound_new : Sound {} where
  ascending := List.Pairwise.nil
  scheduled _ h := by cases h
  active := List.Perm.nil
  addresses := List.nodup_nil
  created _ _ h := by cases h
  queued _ h := by cases h
  away _ h := by cases h
  left := List.suffix_rfl
  now _ h := by cases h
  covers _ h := by cases h

theorem exists_head {l : List Entry} (h : e ∈ l) : ∃ first, l.head? = some first :=
  Option.isSome_iff_exists.1 (List.isSome_head?.2 (List.ne_nil_of_mem h))

/-- Fewer timers need no other clock. -/
theorem Covers.of_subset (h : q.Covers) (hq : Ascending q.timers) (hsub : q'.timers ⊆ q.timers)
    (hbatch : q'.batch = q.batch) (harmed : q'.armed = q.armed) : q'.Covers := by
  intro first hfirst hwhen
  have hmem : first ∈ q.timers := hsub (List.mem_of_mem_head? hfirst)
  obtain ⟨earliest, hearliest⟩ := exists_head hmem
  have hle : earliest.time ≤ first.time := Entry.time_le (hq.head_le hearliest hmem)
  obtain ⟨time, htime, hearlier⟩ := h earliest hearliest
    (hwhen.imp (fun h => hbatch ▸ h) hle.trans)
  exact ⟨time, harmed.trans htime, hearlier.trans hle⟩

theorem Keeps.resetTimerfd (h : q.Keeps away) (expiration : ℤ) :
    (q.resetTimerfd expiration).Keeps away :=
  ⟨h.ascending, h.scheduled, h.active, h.addresses, h.created, h.queued, h.away⟩

/-- **`addTimerInLoop` sets the clock for a timer that is the earliest.** -/
theorem Keeps.addTimerInLoop (h : q.Keeps away) (hcovers : q.Covers) (ht : q.heap timer = some t)
    (hfresh : q.Fresh away timer) :
    ∃ q', q.addTimerInLoop timer = some q' ∧ q'.Keeps away ∧ q'.Covers ∧
      (q' = q.inserted timer t ∨ q' = (q.inserted timer t).resetTimerfd t.expiration) := by
  obtain ⟨hinsert, hkeeps⟩ := h.insert ht hfresh
  have hhead := head_orderedInsert (⟨t.expiration, timer⟩ : Entry) q.timers
  have hheap : (q.inserted timer t).heap timer = some t := ht
  cases hfirst : q.timers.head? with
  | none =>
    refine ⟨_, ?_, hkeeps.resetTimerfd t.expiration, fun first heq _ => ⟨_, rfl, ?_⟩, .inr rfl⟩
    · rw [TimerQueue.addTimerInLoop, hinsert, hfirst, Option.bind_some, if_pos Option.all_none, hheap]
      rfl
    · obtain rfl : ⟨t.expiration, timer⟩ = first := by
        simpa [TimerQueue.resetTimerfd, inserted, hhead, hfirst] using heq
      exact le_rfl
  | some earliest =>
    have hnew : ∀ first, (q.inserted timer t).timers.head? = some first →
        first = min ⟨t.expiration, timer⟩ earliest := by
      intro first heq
      simpa [inserted, hhead, hfirst, eq_comm] using heq
    by_cases hlt : t.expiration < earliest.time
    · refine ⟨_, ?_, hkeeps.resetTimerfd t.expiration, fun first heq _ => ⟨_, rfl, ?_⟩, .inr rfl⟩
      · rw [TimerQueue.addTimerInLoop, hinsert, hfirst, Option.bind_some, if_pos (by simpa using hlt),
          hheap]
        rfl
      · rw [hnew first heq, min_eq_left (Entry.lt_iff.2 (.inl hlt)).le]
    · have htime : ∀ first, (q.inserted timer t).timers.head? = some first →
          first.time = earliest.time := by
        intro first heq
        rw [hnew first heq]
        rcases le_total (⟨t.expiration, timer⟩ : Entry) earliest with hle | hle
        · rw [min_eq_left hle]
          exact le_antisymm (Entry.time_le hle) (not_lt.1 hlt)
        · rw [min_eq_right hle]
      refine ⟨_, ?_, hkeeps, fun first heq hwhen => ?_, .inl rfl⟩
      · rw [TimerQueue.addTimerInLoop, hinsert, hfirst, Option.bind_some, if_neg (by simpa using hlt)]
      · rw [htime first heq] at hwhen ⊢
        exact hcovers earliest hfirst hwhen

/-- **`cancelInLoop`** takes a timer that waits out of both sets and deletes it. -/
theorem Keeps.cancelInLoop (h : q.Keeps away) (id : TimerId) :
    ∃ q', q.cancelInLoop id = some q' ∧ q'.Keeps away ∧
      ((id ∈ q.activeTimers ∧ ∃ t, q.heap id.timer = some t ∧
          q' = TimerQueue.store { q with
            timers := q.timers.erase ⟨t.expiration, id.timer⟩
            activeTimers := q.activeTimers.erase id } id.timer none) ∨
        (id ∉ q.activeTimers ∧ q.batch.isSome ∧
          q' = { q with cancelingTimers := id :: q.cancelingTimers }) ∨
        (id ∉ q.activeTimers ∧ q.batch = none ∧ q' = q)) := by
  unfold TimerQueue.cancelInLoop
  rw [if_pos h.agree]
  by_cases hid : id ∈ q.activeTimers
  · obtain ⟨t, ht, hsequence, hentry⟩ := h.exists_entry hid
    have hidOf : idOf q.heap ⟨t.expiration, id.timer⟩ = id := by
      rw [idOf_eq ht, hsequence]
    obtain ⟨hkeeps, hfresh⟩ := h.erase hentry
    rw [hidOf] at hkeeps hfresh
    refine ⟨_, ?_, hkeeps.store hfresh (fun t ht => by cases ht), .inl ⟨hid, t, ht, rfl⟩⟩
    rw [if_pos hid, ht, Option.bind_some, if_pos hentry]
  · rw [if_neg hid]
    cases hbatch : q.batch with
    | none => exact ⟨q, rfl, h, .inr (.inr ⟨hid, rfl, rfl⟩)⟩
    | some b =>
      refine ⟨_, rfl, ?_, .inr (.inl ⟨hid, rfl, rfl⟩)⟩
      exact ⟨h.ascending, h.scheduled, h.active, h.addresses, h.created, h.queued, h.away⟩

/-- A timer is created where there is none. -/
theorem Keeps.create (h : q.Keeps away) {time : ℤ} {interval : ℕ} {repeat_ : Bool}
    (hfree : q.heap timer = none) (hlt : timer < UINTPTR_MAX) :
    Keeps (TimerQueue.store { q with
      numCreated := q.numCreated + 1
      queued := q.queued ++ [timer] } timer (some ⟨time, interval, repeat_, q.numCreated + 1⟩)) away := by
  have hne : ∀ e : Entry, (∃ t, q.heap e.timer = some t ∧ t.expiration = e.time) → e.timer ≠ timer := by
    rintro e ⟨t, ht, -⟩ rfl
    cases hfree.symm.trans ht
  have hqueued : timer ∉ q.queued := by
    intro hmem
    obtain ⟨t, ht⟩ := h.queued timer hmem
    cases hfree.symm.trans ht
  have hfresh : q.Fresh away timer :=
    ⟨fun e he => hne e (h.scheduled e he), fun e he => hne e (h.away e he), hqueued⟩
  have hcounted : Keeps { q with numCreated := q.numCreated + 1 } away :=
    ⟨h.ascending, h.scheduled, h.active, h.addresses,
      fun a t ha => ⟨(h.created a t ha).1.trans (Nat.le_succ _), (h.created a t ha).2⟩, h.queued, h.away⟩
  have hstored : (TimerQueue.store { q with numCreated := q.numCreated + 1 } timer
      (some ⟨time, interval, repeat_, q.numCreated + 1⟩)).Keeps away := by
    apply hcounted.store ⟨hfresh.timers, hfresh.away, hfresh.queued⟩
    rintro _ ⟨⟩
    exact ⟨le_rfl, hlt⟩
  refine ⟨hstored.ascending, hstored.scheduled, hstored.active, ?_, hstored.created, ?_, hstored.away⟩
  · refine (List.Perm.nodup_iff ?_).2 (hfresh.nodup h)
    change (q.timers.map Entry.timer ++ (away.map Entry.timer ++ (q.queued ++ [timer]))).Perm _
    rw [← List.append_assoc, ← List.append_assoc, ← List.append_assoc]
    exact List.perm_append_singleton _ _
  · intro a ha
    rcases List.mem_append.1 ha with ha | ha
    · exact hstored.queued a ha
    · rw [List.mem_singleton.1 ha]
      exact ⟨_, heap_store_self⟩

/-- The expired timers, one after the other. -/
theorem Keeps.foldlM_resetOne {l : List Entry} (h : q.Keeps l) {now : ℤ} (hnow : 0 < now) :
    ∃ q', l.foldlM (TimerQueue.resetOne now) q = some q' ∧ q'.Keeps [] ∧ q'.batch = q.batch ∧
      q'.armed = q.armed ∧ ∀ e ∈ q'.timers, e ∈ q.timers ∨ 0 < e.time := by
  induction l generalizing q with
  | nil => exact ⟨q, rfl, h, rfl, rfl, fun e he => .inl he⟩
  | cons e l ih =>
    obtain ⟨t, q₁, -, hstep, hkeeps, hcases⟩ := h.resetOne now
    obtain ⟨q', hfold, hkeeps', hbatch, harmed, htimers⟩ := ih hkeeps
    refine ⟨q', by rw [List.foldlM_cons, hstep]; exact hfold, hkeeps', ?_, ?_, ?_⟩
    · rcases hcases with ⟨-, rfl⟩ | ⟨-, rfl⟩ <;> exact hbatch
    · rcases hcases with ⟨-, rfl⟩ | ⟨-, rfl⟩ <;> exact harmed
    · intro f hf
      rcases hcases with ⟨hagain, rfl⟩ | ⟨-, rfl⟩
      · refine (htimers f hf).elim (fun hmem => ?_) .inr
        rcases (List.mem_orderedInsert (· ≤ ·)).1 hmem with rfl | hmem
        · refine .inr (hnow.trans_le ?_)
          rw [Timer.restart, if_pos hagain.1]
          exact Int.le_add_of_nonneg_right (Int.natCast_nonneg _)
        · exact .inl hmem
      · exact htimers f hf

/-- **`reset` sets the clock** for the earliest timer that has a valid time. -/
theorem Keeps.reset {l : List Entry} (h : q.Keeps l) {now : ℤ} (hnow : 0 < now)
    (hcovers : ∀ first, q.timers.head? = some first → first.time ≤ 0 →
      ∃ time, q.armed = some time ∧ time ≤ first.time) :
    ∃ q₁ q', l.foldlM (TimerQueue.resetOne now) q = some q₁ ∧ q.reset l now = some q' ∧
      (q' = q₁ ∨ ∃ time, q' = q₁.resetTimerfd time) ∧ q'.Keeps [] ∧ q'.batch = q.batch ∧
      ∀ first, q'.timers.head? = some first → ∃ time, q'.armed = some time ∧ time ≤ first.time := by
  obtain ⟨q₁, hfold, hkeeps, hbatch, harmed, htimers⟩ := h.foldlM_resetOne hnow
  cases hhead : q₁.timers.head? with
  | none =>
    refine ⟨q₁, q₁, hfold, ?_, .inl rfl, hkeeps, hbatch, fun first hfirst => ?_⟩
    · rw [TimerQueue.reset, hfold, Option.bind_some, setClock, hhead]
    · cases hhead.symm.trans hfirst
  | some first =>
    have hmem : first ∈ q₁.timers := List.mem_of_mem_head? hhead
    obtain ⟨t, ht, htime⟩ := hkeeps.scheduled first hmem
    have hset : q.reset l now =
        some (if 0 < t.expiration then q₁.resetTimerfd t.expiration else q₁) := by
      rw [TimerQueue.reset, hfold, Option.bind_some, setClock, hhead]
      simp only [ht, Option.map_some]
    by_cases hpos : 0 < t.expiration
    · rw [if_pos hpos] at hset
      refine ⟨q₁, _, hfold, hset, .inr ⟨_, rfl⟩, hkeeps.resetTimerfd _, hbatch,
        fun first' hfirst => ⟨_, rfl, ?_⟩⟩
      obtain rfl : first = first' := Option.some_inj.1 (hhead.symm.trans hfirst)
      exact htime.le
    · rw [if_neg hpos] at hset
      refine ⟨q₁, q₁, hfold, hset, .inl rfl, hkeeps, hbatch, fun first' hfirst => ?_⟩
      obtain rfl : first = first' := Option.some_inj.1 (hhead.symm.trans hfirst)
      rw [htime] at hpos
      have hold : first ∈ q.timers := (htimers first hmem).resolve_right hpos
      obtain ⟨earliest, hearliest⟩ := exists_head hold
      have hle := Entry.time_le (h.ascending.head_le hearliest hold)
      obtain ⟨time, harmed', hearlier⟩ := hcovers earliest hearliest (hle.trans (not_lt.1 hpos))
      exact ⟨time, harmed.trans harmed', hearlier.trans hle⟩

/-! ## Steps -/

/-- The next callback is called. -/
theorem step_callback {now : ℤ} {expired left : List Entry}
    (hbatch : q.batch = some ⟨now, expired, e :: left⟩) (ht : q.heap e.timer = some t) :
    q.step .callback =
      some ([.ran ⟨e.timer, t.sequence⟩], { q with batch := some ⟨now, expired, left⟩ }) := by
  rw [step, hbatch]
  simp only [ht, Option.map_some]

/-- **A possible step** fails no assertion, uses no deleted timer and keeps what the queue keeps. -/
theorem Sound.sound_step (h : q.Sound) {i : TimerInput} (hi : q.Possible i) :
    ∃ events q', q.step i = some (events, q') ∧ q'.Sound := by
  cases i with
  | create timer time interval repeat_ =>
    exact ⟨_, _, rfl, h.toKeeps.create hi.1 hi.2, h.left, h.now, h.covers⟩
  | add timer =>
    obtain ⟨t, ht⟩ := h.queued timer hi
    obtain ⟨hkeeps, hfresh⟩ := h.toKeeps.dequeue hi
    obtain ⟨q', hadd, hkeeps', hcovers, hq'⟩ := hkeeps.addTimerInLoop h.covers ht hfresh
    refine ⟨[.added ⟨timer, t.sequence⟩ t], q', by rw [step, ht, Option.bind_some, hadd]; rfl, ?_⟩
    rcases hq' with rfl | rfl <;> exact ⟨hkeeps', h.left, h.now, hcovers⟩
  | cancel id =>
    obtain ⟨q', hcancel, hkeeps, hcases⟩ := h.toKeeps.cancelInLoop id
    refine ⟨_, q', by rw [step, hcancel]; rfl, ?_⟩
    rcases hcases with ⟨-, t, -, rfl⟩ | ⟨-, -, rfl⟩ | ⟨-, -, rfl⟩
    · refine ⟨hkeeps, h.left, h.now, h.covers.of_subset h.ascending ?_ rfl rfl⟩
      exact List.erase_subset
    · exact ⟨hkeeps, h.left, h.now, h.covers⟩
    · exact h
  | alarm now =>
    obtain ⟨hbatch, hnow⟩ := hi
    have hkeeps : q.Keeps [] := by
      have hkeeps := h.toKeeps
      rwa [TimerQueue.expired, hbatch] at hkeeps
    obtain ⟨expired, q', hget, hkeeps', -, htimers, -⟩ := hkeeps.getExpired now
    have hstep : q.step (.alarm now) = some ([.rang now], { q' with
        batch := some ⟨now, expired, expired⟩
        cancelingTimers := []
        armed := none }) := by
      rw [step, TimerQueue.alarm, hget]
      rfl
    refine ⟨_, _, hstep, ⟨hkeeps'.ascending, hkeeps'.scheduled, hkeeps'.active, hkeeps'.addresses,
      hkeeps'.created, hkeeps'.queued, hkeeps'.away⟩, List.suffix_rfl, ?_, ?_⟩
    · rintro b ⟨⟩
      exact hnow
    · rintro first hfirst (hnone | hle)
      · cases hnone
      · have hlater := ((htimers first).1 (List.mem_of_mem_head? hfirst)).2
        exact absurd (hnow.trans hlater) (not_lt.2 hle)
  | callback =>
    cases hbatch : q.batch with
    | none => exact ⟨[], q, by rw [step, hbatch], h⟩
    | some b =>
      obtain ⟨now, expired, left⟩ := b
      have hexpired : q.expired = expired := by
        rw [TimerQueue.expired, hbatch]
        rfl
      have hleft : left <:+ expired := by
        have hsuffix := h.left
        rwa [hexpired, TimerQueue.left, hbatch] at hsuffix
      cases left with
      | nil => exact ⟨[], q, by rw [step, hbatch], h⟩
      | cons e left =>
        obtain ⟨t, ht, -⟩ := h.away e (hexpired ▸ hleft.subset List.mem_cons_self)
        have hnow : 0 < now := h.now _ hbatch
        have hkeeps := h.toKeeps
        rw [hexpired] at hkeeps
        refine ⟨_, _, step_callback hbatch ht, ⟨hkeeps.ascending, hkeeps.scheduled, hkeeps.active,
          hkeeps.addresses, hkeeps.created, hkeeps.queued, hkeeps.away⟩,
          (List.suffix_cons e left).trans hleft, ?_, ?_⟩
        · rintro _ ⟨⟩
          exact hnow
        · rintro first hfirst (hnone | hle)
          · cases hnone
          · exact h.covers first hfirst (.inr hle)
  | finish =>
    cases hbatch : q.batch with
    | none => exact ⟨[], q, by rw [step, hbatch], h⟩
    | some b =>
      obtain ⟨now, expired, left⟩ := b
      cases left with
      | cons e left => exact ⟨[], q, by rw [step, hbatch], h⟩
      | nil =>
        have hexpired : q.expired = expired := by
          rw [TimerQueue.expired, hbatch]
          rfl
        have hkeeps : Keeps { q with batch := none } expired :=
          ⟨h.ascending, h.scheduled, h.active, hexpired ▸ h.addresses, h.created, h.queued,
            hexpired ▸ h.away⟩
        obtain ⟨q₁, q', -, hreset, -, hkeeps', hnone, harmed⟩ := hkeeps.reset (h.now _ hbatch)
          fun first hfirst hle => h.covers first hfirst (.inr hle)
        have hnone' : q'.expired = [] := by
          rw [TimerQueue.expired, hnone]
          rfl
        refine ⟨[.finished now], q', by rw [step, hbatch]; simp only [hreset, Option.map_some],
          hnone'.symm ▸ hkeeps', ?_, ?_, fun first hfirst _ => harmed first hfirst⟩
        · rw [TimerQueue.left, hnone]
          exact List.nil_suffix
        · intro b hb
          cases hnone.symm.trans hb

/-- A run of which every step is possible. -/
abbrev PossibleRun (q : TimerQueue) (is : List TimerInput) : Prop :=
  Along (fun q i => (q.step i).map Prod.snd) Possible q is

theorem Sound.sound_run (h : q.Sound) {is : List TimerInput} (his : q.PossibleRun is) :
    ∃ out q', runs step q is = some (out, q') ∧ q'.Sound := by
  induction is generalizing q with
  | nil => exact ⟨[], q, rfl, h⟩
  | cons i is ih =>
    obtain ⟨hi, hrest⟩ := (along_cons _ _ _).1 his
    obtain ⟨events, q₁, hstep, hsound⟩ := h.sound_step hi
    obtain ⟨out, q', hrun, hsound'⟩ := ih hsound (hrest q₁ (by rw [hstep]; rfl))
    exact ⟨events :: out, q', runs_cons_eq_some.2 ⟨events, q₁, out, hstep, hrun, rfl⟩, hsound'⟩

/-- **The assertions of a queue hold.** In every possible run no assertion fails and no deleted timer is
used; behind it the two sets have the same timers, in the order of their expirations; and when no callback
is being called and a timer waits, the clock is set for a time that is not later than the earliest. -/
theorem assertions_hold {is : List TimerInput} (h : PossibleRun {} is) :
    ∃ out q, runs step {} is = some (out, q) ∧ Ascending q.timers ∧
      q.activeTimers.Perm (q.timers.map (idOf q.heap)) ∧
      (∀ e ∈ q.timers, ∃ t, q.heap e.timer = some t ∧ t.expiration = e.time) ∧
      (q.batch = none → ∀ first, q.timers.head? = some first →
        ∃ time, q.armed = some time ∧ time ≤ first.time) := by
  obtain ⟨out, q, hrun, hsound⟩ := sound_new.sound_run h
  exact ⟨out, q, hrun, hsound.ascending, hsound.active, hsound.scheduled,
    fun hbatch first hfirst => hsound.covers first hfirst (.inl hbatch)⟩

/-- A timer that repeats, and is cancelled by its own callback. -/
theorem possibleRun_cancelled : PossibleRun {}
    ([.create 1 100 50 true, .add 1, .alarm 120] ++ .cancel ⟨1, 1⟩ :: [.callback, .finish]) := by
  decide

theorem assertions_hold_cancelled : ∃ out q, runs step {}
      ([.create 1 100 50 true, .add 1, .alarm 120] ++ .cancel ⟨1, 1⟩ :: [.callback, .finish]) =
        some (out, q) ∧ Ascending q.timers ∧
      q.activeTimers.Perm (q.timers.map (idOf q.heap)) ∧
      (∀ e ∈ q.timers, ∃ t, q.heap e.timer = some t ∧ t.expiration = e.time) ∧
      (q.batch = none → ∀ first, q.timers.head? = some first →
        ∃ time, q.armed = some time ∧ time ≤ first.time) :=
  assertions_hold possibleRun_cancelled

end Sound

end TimerQueue

end Net

end GraduationServer
