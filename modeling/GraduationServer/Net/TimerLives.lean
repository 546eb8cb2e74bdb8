import GraduationServer.Net.TimerQueue

/-!
# The lives of timers

What a queue of timers is for, said of one timer alone (`Life`): it waits until the clock rings at its
expiration or later, then its callback is called once, and then it waits again, from the time of the ring,
or is dead. A timer that is cancelled while it waits is dead; one that has expired is called all the same,
but waits no more.

Every timer of a queue has this life, whatever the other timers are, and whatever is inserted and cancelled
between the callbacks (`TimerQueue.lives`). So a timer that has been cancelled is not called any more, but
once when it is at hand (`TimerQueue.called_after_cancel`).
-/

namespace GraduationServer

namespace Net

/-! ## One timer -/

/-- What becomes of a timer. With callbacks at hand it may have been cancelled. -/
inductive Life
  | unborn
  | waiting (t : Timer)
  | expired (t : Timer) (cancelled : Bool)
  | called (t : Timer) (cancelled : Bool)
  | dead
  deriving DecidableEq

namespace Life

/-- What an event makes of the life of a timer, `none` when the event does not belong to such a life. -/
def next (id : TimerId) (life : Life) : TimerEvent → Option Life
  | .added id' t =>
    if id' = id then
      match life with
      | unborn => some (waiting t)
      | _ => none
    else some life
  | .cancelled id' =>
    if id' = id then
      match life with
      | waiting _ => some dead
      | expired t _ => some (expired t true)
      | called t _ => some (called t true)
      | unborn | dead => some life
    else some life
  | .rang now =>
    match life with
    | waiting t => some (if t.expiration ≤ now then expired t false else waiting t)
    | expired _ _ | called _ _ => none
    | unborn | dead => some life
  | .ran id' =>
    if id' = id then
      match life with
      | expired t cancelled => some (called t cancelled)
      | _ => none
    else some life
  | .finished now =>
    match life with
    | called t cancelled =>
      some (if t.repeat_ ∧ cancelled = false then waiting (t.restart now) else dead)
    | expired _ _ => none
    | unborn | waiting _ | dead => some life

/-- The life of a timer in a run. -/
def run (id : TimerId) (life : Life) (events : List TimerEvent) : Option Life :=
  events.foldlM (next id) life

theorem run_append (id : TimerId) (life : Life) (events events' : List TimerEvent) :
    run id life (events ++ events') = (run id life events).bind fun life => run id life events' :=
  List.foldlM_append ..

theorem run_cons (id : TimerId) (life : Life) (event : TimerEvent) (events : List TimerEvent) :
    run id life (event :: events) = (next id life event).bind fun life => run id life events := rfl

/-- A timer that has been added is not unborn. -/
theorem next_ne_unborn {id : TimerId} {life life' : Life} {event : TimerEvent}
    (h : next id life event = some life') (hlife : life ≠ unborn ∨ ∃ t, event = .added id t) :
    life' ≠ unborn := by
  rintro rfl
  cases event with
  | added id' t =>
    simp only [next] at h
    split_ifs at h with hid
    · cases life <;> cases h
    · cases h
      rcases hlife with hne | ⟨t', heq⟩
      · exact hne rfl
      · cases heq
        exact hid rfl
  | cancelled id' | ran id' =>
    have hne := hlife.resolve_right (by simp)
    simp only [next] at h
    split_ifs at h
    · cases life with
      | unborn => exact hne rfl
      | waiting t | expired t c | called t c | dead => cases h
    · cases h
      exact hne rfl
  | rang now | finished now =>
    have hne := hlife.resolve_right (by simp)
    cases life with
    | unborn => exact hne rfl
    | waiting t =>
      simp only [next] at h
      first | (split_ifs at h; all_goals cases h) | cases h
    | expired t c | dead => cases h
    | called t c =>
      simp only [next] at h
      first | (split_ifs at h; all_goals cases h) | cases h

theorem run_ne_unborn {id : TimerId} {life life' : Life} {events : List TimerEvent}
    (h : run id life events = some life')
    (hlife : life ≠ unborn ∨ ∃ t, .added id t ∈ events) : life' ≠ unborn := by
  induction events generalizing life with
  | nil =>
    cases h
    exact hlife.resolve_right (by simp)
  | cons event events ih =>
    rw [run_cons] at h
    obtain ⟨life₁, hnext, hrest⟩ := Option.bind_eq_some_iff.1 h
    apply ih hrest
    rcases hlife with hne | ⟨t, hmem⟩
    · exact .inl (next_ne_unborn hnext (.inl hne))
    · rcases List.mem_cons.1 hmem with heq | hmem
      · exact .inl (next_ne_unborn hnext (.inr ⟨t, heq.symm⟩))
      · exact .inr ⟨t, hmem⟩

/-- The calls that a timer has before it when it has been cancelled. -/
def callsLeft : Life → Option ℕ
  | dead | called _ true => some 0
  | expired _ true => some 1
  | _ => none

/-- A timer that is cancelled has one call before it when it has expired and has not been called. -/
theorem callsLeft_cancelled {id : TimerId} {life life' : Life}
    (h : next id life (.cancelled id) = some life') (hne : life ≠ unborn) :
    ∃ n, life'.callsLeft = some n ∧ n ≤ 1 ∧ ((∀ t c, life ≠ expired t c) → n = 0) := by
  simp only [next, if_true] at h
  cases life with
  | unborn => exact absurd rfl hne
  | waiting t | called t c | dead =>
    cases h
    exact ⟨0, rfl, Nat.zero_le _, fun _ => rfl⟩
  | expired t c =>
    cases h
    exact ⟨1, rfl, le_rfl, fun hnot => absurd rfl (hnot t c)⟩

/-- A timer that has been cancelled stays so, and its calls become fewer. -/
theorem callsLeft_next {id : TimerId} {life life' : Life} {event : TimerEvent} {n : ℕ}
    (h : next id life event = some life') (hn : life.callsLeft = some n) :
    ∃ n', life'.callsLeft = some n' ∧ n' + [event].count (.ran id) ≤ n := by
  cases life with
  | unborn | waiting t => cases hn
  | dead =>
    cases hn
    cases event with
    | added id' t | cancelled id' | ran id' =>
      simp only [next] at h
      split_ifs at h with hid
      all_goals
        cases h
        exact ⟨0, rfl, by simp [hid]⟩
    | rang now | finished now =>
      cases h
      exact ⟨0, rfl, by simp⟩
  | expired t c =>
    cases c with
    | false => cases hn
    | true =>
      cases hn
      cases event with
      | added id' t' | cancelled id' | ran id' =>
        simp only [next] at h
        split_ifs at h with hid
        all_goals
          cases h
          refine ⟨_, rfl, ?_⟩
          simp [hid]
      | rang now | finished now => cases h
  | called t c =>
    cases c with
    | false => cases hn
    | true =>
      cases hn
      cases event with
      | added id' t' | cancelled id' | ran id' =>
        simp only [next] at h
        split_ifs at h with hid
        all_goals
          cases h
          exact ⟨0, rfl, by simp [hid]⟩
      | rang now => cases h
      | finished now =>
        simp only [next, Bool.true_eq_false, and_false, if_false] at h
        cases h
        exact ⟨0, rfl, by simp⟩

theorem count_ran_le {id : TimerId} {life life' : Life} {events : List TimerEvent} {n : ℕ}
    (h : run id life events = some life') (hn : life.callsLeft = some n) :
    events.count (.ran id) ≤ n := by
  induction events generalizing life n with
  | nil => simp
  | cons event events ih =>
    rw [run_cons] at h
    obtain ⟨life₁, hnext, hrest⟩ := Option.bind_eq_some_iff.1 h
    obtain ⟨n₁, hn₁, hle⟩ := callsLeft_next hnext hn
    have hcount := ih hrest hn₁
    rw [← List.singleton_append, List.count_append]
    omega

end Life

namespace TimerQueue

/-! ## The queue and the life of a timer -/

/-- The object of a timer. -/
def Has (q : TimerQueue) (id : TimerId) (t : Timer) : Prop :=
  q.heap id.timer = some t ∧ t.sequence = id.sequence

/-- What a queue has of a timer at a point of its life. -/
def Agrees (q : TimerQueue) (id : TimerId) : Life → Prop
  | .unborn => ∀ t, q.Has id t → ∀ e ∈ q.timers ++ q.expired, e.timer ≠ id.timer
  | .waiting t => q.Has id t ∧ ⟨t.expiration, id.timer⟩ ∈ q.timers
  | .expired t cancelled => q.Has id t ∧ ⟨t.expiration, id.timer⟩ ∈ q.left ∧
      (cancelled ↔ id ∈ q.cancelingTimers)
  | .called t cancelled => q.Has id t ∧ ⟨t.expiration, id.timer⟩ ∈ q.expired ∧
      ⟨t.expiration, id.timer⟩ ∉ q.left ∧ (cancelled ↔ id ∈ q.cancelingTimers)
  | .dead => id.sequence ≤ q.numCreated ∧
      ∀ t, q.Has id t → (∀ e ∈ q.timers ++ q.expired, e.timer ≠ id.timer) ∧ id.timer ∉ q.queued

section Agrees

variable {q q' : TimerQueue} {id : TimerId} {life : Life} {e : Entry} {t t' : Timer}

theorem Has.eq (h : q.Has id t) (h' : q.Has id t') : t' = t :=
  Option.some_inj.1 (h'.1.symm.trans h.1)

/-- What has no object is unborn or dead, and stays so while it has none. -/
theorem Agrees.of_not_has (h : q.Agrees id life) (hq : ∀ t, ¬ q.Has id t) (hq' : ∀ t, ¬ q'.Has id t)
    (hle : q.numCreated ≤ q'.numCreated) : q'.Agrees id life := by
  cases life with
  | unborn => exact fun t ht => absurd ht (hq' t)
  | waiting t | expired t _ | called t _ => exact absurd h.1 (hq t)
  | dead => exact ⟨h.1.trans hle, fun t ht => absurd ht (hq' t)⟩

/-- A step that is about other timers. -/
theorem Agrees.frame (h : q.Agrees id life) (hheap : q'.heap id.timer = q.heap id.timer)
    (htimers : ∀ time, ⟨time, id.timer⟩ ∈ q'.timers ↔ (⟨time, id.timer⟩ : Entry) ∈ q.timers)
    (hexpired : ∀ time, ⟨time, id.timer⟩ ∈ q'.expired ↔ (⟨time, id.timer⟩ : Entry) ∈ q.expired)
    (hleft : ∀ time, ⟨time, id.timer⟩ ∈ q'.left ↔ (⟨time, id.timer⟩ : Entry) ∈ q.left)
    (hcanceling : id ∈ q'.cancelingTimers ↔ id ∈ q.cancelingTimers)
    (hle : q.numCreated ≤ q'.numCreated) (hqueued : id.timer ∈ q'.queued → id.timer ∈ q.queued) :
    q'.Agrees id life := by
  have hhas : ∀ t, q'.Has id t ↔ q.Has id t := fun t => by rw [Has, Has, hheap]
  have hentries : (∀ e ∈ q'.timers ++ q'.expired, e.timer ≠ id.timer) ↔
      ∀ e ∈ q.timers ++ q.expired, e.timer ≠ id.timer := by
    have hmem : ∀ e : Entry, e.timer = id.timer →
        (e ∈ q'.timers ++ q'.expired ↔ e ∈ q.timers ++ q.expired) := by
      rintro ⟨time, timer⟩ rfl
      rw [List.mem_append, List.mem_append, htimers, hexpired]
    constructor
    · exact fun hall e he heq => hall e ((hmem e heq).2 he) heq
    · exact fun hall e he heq => hall e ((hmem e heq).1 he) heq
  cases life with
  | unborn => exact fun t ht => hentries.2 (h t ((hhas t).1 ht))
  | waiting t => exact ⟨(hhas t).2 h.1, (htimers _).2 h.2⟩
  | expired t c => exact ⟨(hhas t).2 h.1, (hleft _).2 h.2.1, by rw [hcanceling]; exact h.2.2⟩
  | called t c =>
    exact ⟨(hhas t).2 h.1, (hexpired _).2 h.2.1, fun hmem => h.2.2.1 ((hleft _).1 hmem),
      by rw [hcanceling]; exact h.2.2.2⟩
  | dead =>
    refine ⟨h.1.trans hle, fun t ht => ?_⟩
    obtain ⟨hnone, hnotQueued⟩ := h.2 t ((hhas t).1 ht)
    exact ⟨hentries.2 hnone, fun hmem => hnotQueued (hqueued hmem)⟩

/-- A timer that waits is no expired one at hand. -/
theorem Sound.disjoint (h : q.Sound) {f : Entry} (he : e ∈ q.timers) (hf : f ∈ q.expired) :
    e.timer ≠ f.timer := by
  have hnodup := List.nodup_append.1 h.addresses
  exact hnodup.2.2 _ (List.mem_map_of_mem he) _
    (List.mem_append_left _ (List.mem_map_of_mem hf))

/-- A timer that is to be inserted is none of those in the queue. -/
theorem Sound.notMem_queued (h : q.Sound) (he : e ∈ q.timers ++ q.expired) : e.timer ∉ q.queued := by
  intro hmem
  have hnodup := h.addresses
  rw [← List.append_assoc, ← List.map_append] at hnodup
  exact (List.nodup_append.1 hnodup).2.2 _ (List.mem_map_of_mem he) _ hmem rfl

/-- A timer that waits is active. -/
theorem Sound.mem_active (h : q.Sound) (ht : q.Has id t)
    (hentry : ⟨t.expiration, id.timer⟩ ∈ q.timers) : id ∈ q.activeTimers := by
  rw [h.active.mem_iff]
  refine List.mem_map.2 ⟨_, hentry, ?_⟩
  have hidOf : idOf q.heap ⟨t.expiration, id.timer⟩ = ⟨id.timer, t.sequence⟩ := idOf_eq ht.1
  rw [hidOf, ht.2]

theorem Sound.left_subset (h : q.Sound) (he : e ∈ q.left) : e ∈ q.expired := h.left.subset he

/-- What is in the queue is neither unborn nor dead. -/
theorem Agrees.cases (h : q.Agrees id life) (ht : q.Has id t)
    (he : ∃ e ∈ q.timers ++ q.expired, e.timer = id.timer) :
    life = .waiting t ∨ (∃ c, life = .expired t c) ∨ ∃ c, life = .called t c := by
  obtain ⟨e, he, heq⟩ := he
  cases life with
  | unborn => exact absurd heq (h t ht e he)
  | waiting t' => exact .inl (by rw [h.1.eq ht])
  | expired t' c => exact .inr (.inl ⟨c, by rw [h.1.eq ht]⟩)
  | called t' c => exact .inr (.inr ⟨c, by rw [h.1.eq ht]⟩)
  | dead => exact absurd heq ((h.2 t ht).1 e he)

/-- An object at the address of a timer with another sequence number is that of another timer. -/
theorem not_has_of_ne (h : q.heap id.timer = some t) (hne : ⟨id.timer, t.sequence⟩ ≠ id) (t' : Timer) :
    ¬ q.Has id t' := by
  rintro ⟨h', hsequence⟩
  obtain rfl : t = t' := Option.some_inj.1 (h.symm.trans h')
  exact hne (by rw [hsequence])

/-! ### The end of a batch -/

/-- What `reset` leaves of the expired timers, and that it leaves the others as they are. -/
structure Reset (now : ℤ) (l : List Entry) (q q' : TimerQueue) : Prop where
  cancelingTimers : q'.cancelingTimers = q.cancelingTimers
  numCreated : q'.numCreated = q.numCreated
  queued : q'.queued = q.queued
  heap_other : ∀ a, (∀ e ∈ l, e.timer ≠ a) → q'.heap a = q.heap a
  timers_other : ∀ f : Entry, (∀ e ∈ l, e.timer ≠ f.timer) → (f ∈ q'.timers ↔ f ∈ q.timers)
  again : ∀ e ∈ l, ∀ t, q.heap e.timer = some t → q.Again e t →
    q'.heap e.timer = some (t.restart now) ∧ ⟨(t.restart now).expiration, e.timer⟩ ∈ q'.timers
  deleted : ∀ e ∈ l, ∀ t, q.heap e.timer = some t → ¬ q.Again e t → q'.heap e.timer = none

theorem reset_foldlM {l : List Entry} {now : ℤ} (h : q.Keeps l)
    (hfold : l.foldlM (TimerQueue.resetOne now) q = some q') : Reset now l q q' := by
  induction l generalizing q with
  | nil =>
    cases hfold
    exact ⟨rfl, rfl, rfl, fun _ _ => rfl, fun _ _ => Iff.rfl, by simp, by simp⟩
  | cons e l ih =>
    obtain ⟨t, q₁, ht, hstep, hkeeps, hcases⟩ := h.resetOne now
    rw [List.foldlM_cons, hstep] at hfold
    have hrest := ih hkeeps hfold
    have hfresh := h.release.2.away
    -- the others are as they were behind the first one
    have hheap : ∀ a, a ≠ e.timer → q₁.heap a = q.heap a := by
      intro a ha
      rcases hcases with ⟨-, rfl⟩ | ⟨-, rfl⟩ <;> exact heap_store_of_ne ha
    have htimers : ∀ f : Entry, f.timer ≠ e.timer → (f ∈ q₁.timers ↔ f ∈ q.timers) := by
      intro f hf
      rcases hcases with ⟨-, rfl⟩ | ⟨-, rfl⟩
      · have hne : f ≠ ⟨(t.restart now).expiration, e.timer⟩ := by
          rintro rfl
          exact hf rfl
        change f ∈ List.orderedInsert _ _ _ ↔ _
        rw [List.mem_orderedInsert, or_iff_right hne]
        exact Iff.rfl
      · exact Iff.rfl
    have hagain : ∀ f t', q₁.Again f t' ↔ q.Again f t' := by
      intro f t'
      rcases hcases with ⟨-, rfl⟩ | ⟨-, rfl⟩ <;> exact Iff.rfl
    refine ⟨?_, ?_, ?_, ?_, ?_, ?_, ?_⟩
    · rw [hrest.cancelingTimers]
      rcases hcases with ⟨-, rfl⟩ | ⟨-, rfl⟩ <;> rfl
    · rw [hrest.numCreated]
      rcases hcases with ⟨-, rfl⟩ | ⟨-, rfl⟩ <;> rfl
    · rw [hrest.queued]
      rcases hcases with ⟨-, rfl⟩ | ⟨-, rfl⟩ <;> rfl
    · intro a ha
      rw [hrest.heap_other a fun f hf => ha f (List.mem_cons_of_mem _ hf)]
      exact hheap a (ha e List.mem_cons_self).symm
    · intro f hf
      rw [hrest.timers_other f fun g hg => hf g (List.mem_cons_of_mem _ hg)]
      exact htimers f (hf e List.mem_cons_self).symm
    · intro f hf t' ht' hf'
      rcases List.mem_cons.1 hf with rfl | hf
      · obtain rfl : t = t' := Option.some_inj.1 (ht.symm.trans ht')
        have hentry := hrest.timers_other ⟨(t.restart now).expiration, f.timer⟩ hfresh
        rw [hrest.heap_other _ hfresh, hentry]
        rcases hcases with ⟨-, rfl⟩ | ⟨hnot, -⟩
        · exact ⟨heap_store_self, (List.mem_orderedInsert _).2 (.inl rfl)⟩
        · exact absurd hf' hnot
      · exact hrest.again f hf t' ((hheap _ (hfresh f hf)).trans ht') ((hagain f t').2 hf')
    · intro f hf t' ht' hf'
      rcases List.mem_cons.1 hf with rfl | hf
      · obtain rfl : t = t' := Option.some_inj.1 (ht.symm.trans ht')
        rw [hrest.heap_other _ hfresh]
        rcases hcases with ⟨hnot, -⟩ | ⟨-, rfl⟩
        · exact absurd hnot hf'
        · exact heap_store_self
      · exact hrest.deleted f hf t' ((hheap _ (hfresh f hf)).trans ht') (mt (hagain f t').1 hf')

/-! ### Steps -/

section Steps

variable (h : q.Sound) (hagrees : q.Agrees id life)

include h hagrees

theorem agrees_create {timer : ℕ} {time : ℤ} {interval : ℕ} {repeat_ : Bool}
    (hfree : q.heap timer = none) :
    (store { q with
      numCreated := q.numCreated + 1
      queued := q.queued ++ [timer] } timer
        (some ⟨time, interval, repeat_, q.numCreated + 1⟩)).Agrees id life := by
  by_cases hid : id.timer = timer
  · have hnot : ∀ t, ¬ q.Has id t := by
      rintro t ⟨ht, -⟩
      rw [hid, hfree] at ht
      cases ht
    cases life with
    | unborn =>
      intro _ _ e he heq
      have hsome : ∃ t, q.heap e.timer = some t ∧ t.expiration = e.time :=
        (List.mem_append.1 he).elim (h.scheduled e) (h.away e)
      rw [heq, hid, hfree] at hsome
      obtain ⟨t, ht, -⟩ := hsome
      cases ht
    | waiting t | expired t _ | called t _ => exact absurd hagrees.1 (hnot t)
    | dead =>
      refine ⟨hagrees.1.trans (Nat.le_succ _), fun t ht => ?_⟩
      have hself := ht.1
      rw [hid, heap_store_self] at hself
      obtain rfl := Option.some_inj.1 hself
      have hsequence : q.numCreated + 1 = id.sequence := ht.2
      have := hagrees.1
      omega
  · apply hagrees.frame
    · exact heap_store_of_ne hid
    · exact fun _ => Iff.rfl
    · exact fun _ => Iff.rfl
    · exact fun _ => Iff.rfl
    · exact Iff.rfl
    · exact Nat.le_succ _
    · intro hmem
      exact (List.mem_append.1 hmem).resolve_right fun heq => hid (List.mem_singleton.1 heq)

theorem agrees_add {timer : ℕ} (hqueued : timer ∈ q.queued) (ht : q.heap timer = some t) :
    ∃ life', life.next id (.added ⟨timer, t.sequence⟩ t) = some life' ∧
      (inserted { q with queued := q.queued.erase timer } timer t).Agrees id life' := by
  by_cases hid : (⟨timer, t.sequence⟩ : TimerId) = id
  · subst hid
    have hunborn : life = .unborn := by
      cases life with
      | unborn => rfl
      | waiting t' => exact absurd hqueued (h.notMem_queued (List.mem_append_left _ hagrees.2))
      | expired t' c =>
        exact absurd hqueued (h.notMem_queued (List.mem_append_right _ (h.left_subset hagrees.2.1)))
      | called t' c => exact absurd hqueued (h.notMem_queued (List.mem_append_right _ hagrees.2.1))
      | dead => exact absurd hqueued (hagrees.2 t ⟨ht, rfl⟩).2
    subst hunborn
    exact ⟨.waiting t, if_pos rfl, ⟨ht, rfl⟩, (List.mem_orderedInsert _).2 (.inl rfl)⟩
  · refine ⟨life, if_neg hid, ?_⟩
    by_cases haddress : timer = id.timer
    · subst haddress
      have hnot := not_has_of_ne ht hid
      exact hagrees.of_not_has hnot hnot le_rfl
    · apply hagrees.frame
      · rfl
      · intro time
        change _ ∈ List.orderedInsert _ _ _ ↔ _
        rw [List.mem_orderedInsert, or_iff_right]
        intro heq
        exact haddress (congrArg Entry.timer heq).symm
      · exact fun _ => Iff.rfl
      · exact fun _ => Iff.rfl
      · exact Iff.rfl
      · exact le_rfl
      · exact List.mem_of_mem_erase

theorem agrees_cancel {id' : TimerId} (hcancel : q.cancelInLoop id' = some q') :
    ∃ life', life.next id (.cancelled id') = some life' ∧ q'.Agrees id life' := by
  obtain ⟨q₁, hcancel', -, hcases⟩ := h.toKeeps.cancelInLoop id'
  obtain rfl : q₁ = q' := Option.some_inj.1 (hcancel'.symm.trans hcancel)
  rcases hcases with ⟨hactive, t, ht, rfl⟩ | ⟨hactive, -, rfl⟩ | ⟨hactive, hnone, rfl⟩
  · -- it waits
    obtain ⟨t', ht', hsequence, hentry⟩ := h.exists_entry hactive
    obtain rfl : t = t' := Option.some_inj.1 (ht.symm.trans ht')
    by_cases hid : id' = id
    · subst hid
      have hwaiting : life = .waiting t := by
        rcases hagrees.cases ⟨ht, hsequence⟩ ⟨_, List.mem_append_left _ hentry, rfl⟩ with
          hlife | ⟨c, rfl⟩ | ⟨c, rfl⟩
        · exact hlife
        · exact absurd rfl (h.disjoint hentry (h.left_subset hagrees.2.1))
        · exact absurd rfl (h.disjoint hentry hagrees.2.1)
      subst hwaiting
      refine ⟨.dead, if_pos rfl, ?_, fun t' hhas => ?_⟩
      · rw [← hsequence]
        exact (h.created _ _ ht).1
      · have hself := hhas.1
        rw [heap_store_self] at hself
        cases hself
    · refine ⟨life, if_neg hid, ?_⟩
      by_cases haddress : id'.timer = id.timer
      · have hnot : ∀ t', ¬ q.Has id t' := by
          apply not_has_of_ne (haddress ▸ ht)
          rw [← haddress, hsequence]
          exact hid
        refine hagrees.of_not_has hnot ?_ le_rfl
        rintro t' ⟨hself, -⟩
        rw [← haddress, heap_store_self] at hself
        cases hself
      · apply hagrees.frame
        · exact heap_store_of_ne (Ne.symm haddress)
        · intro time
          change _ ∈ q.timers.erase _ ↔ _
          rw [h.ascending.nodup.mem_erase_iff, and_iff_right]
          intro heq
          exact haddress (congrArg Entry.timer heq).symm
        · exact fun _ => Iff.rfl
        · exact fun _ => Iff.rfl
        · exact Iff.rfl
        · exact le_rfl
        · exact fun hmem => hmem
  · -- it may be one of the batch at hand
    by_cases hid : id' = id
    · subst hid
      cases life with
      | unborn | dead => exact ⟨_, if_pos rfl, hagrees⟩
      | waiting t => exact absurd (h.mem_active hagrees.1 hagrees.2) hactive
      | expired t c =>
        exact ⟨.expired t true, if_pos rfl, hagrees.1, hagrees.2.1, by simp⟩
      | called t c =>
        exact ⟨.called t true, if_pos rfl, hagrees.1, hagrees.2.1, hagrees.2.2.1, by simp⟩
    · refine ⟨life, if_neg hid, ?_⟩
      refine hagrees.frame rfl (fun _ => Iff.rfl) (fun _ => Iff.rfl) (fun _ => Iff.rfl) ?_ le_rfl
        fun hmem => hmem
      rw [List.mem_cons, or_iff_right (Ne.symm hid)]
  · -- it is dead, or has never been inserted
    by_cases hid : id' = id
    · subst hid
      cases life with
      | unborn | dead => exact ⟨_, if_pos rfl, hagrees⟩
      | waiting t => exact absurd (h.mem_active hagrees.1 hagrees.2) hactive
      | expired t c =>
        have hmem := hagrees.2.1
        rw [TimerQueue.left, hnone] at hmem
        cases hmem
      | called t c =>
        have hmem := hagrees.2.1
        rw [TimerQueue.expired, hnone] at hmem
        cases hmem
    · exact ⟨life, if_neg hid, hagrees⟩

theorem agrees_alarm {now : ℤ} (hnone : q.batch = none) (halarm : q.alarm now = some q') :
    ∃ life', life.next id (.rang now) = some life' ∧ q'.Agrees id life' := by
  have hkeeps : q.Keeps [] := by
    have hkeeps := h.toKeeps
    rwa [TimerQueue.expired, hnone] at hkeeps
  obtain ⟨expired, q₁, hget, -, hexpired, htimers, activeTimers, hq₁⟩ := hkeeps.getExpired now
  rw [TimerQueue.alarm, hget] at halarm
  cases halarm
  have hheap : q₁.heap = q.heap := by rw [hq₁]
  have hnumCreated : q₁.numCreated = q.numCreated := by rw [hq₁]
  have hqueued : q₁.queued = q.queued := by rw [hq₁]
  have hentries : ∀ e ∈ q₁.timers ++ expired, e ∈ q.timers ++ q.expired := by
    intro e he
    refine List.mem_append_left _ ?_
    exact (List.mem_append.1 he).elim (fun he => ((htimers e).1 he).1) fun he => ((hexpired e).1 he).1
  cases life with
  | unborn =>
    refine ⟨.unborn, rfl, fun t ht e he => hagrees t ⟨hheap ▸ ht.1, ht.2⟩ e (hentries e he)⟩
  | waiting t =>
    obtain ⟨hhas, hentry⟩ := hagrees
    by_cases hle : t.expiration ≤ now
    · refine ⟨.expired t false, congrArg some (if_pos hle), ⟨hheap.symm ▸ hhas.1, hhas.2⟩, ?_, by simp⟩
      exact (hexpired _).2 ⟨hentry, hle⟩
    · refine ⟨.waiting t, congrArg some (if_neg hle), ⟨hheap.symm ▸ hhas.1, hhas.2⟩, ?_⟩
      exact (htimers _).2 ⟨hentry, not_le.1 hle⟩
  | expired t c =>
    have hmem := hagrees.2.1
    rw [TimerQueue.left, hnone] at hmem
    cases hmem
  | called t c =>
    have hmem := hagrees.2.1
    rw [TimerQueue.expired, hnone] at hmem
    cases hmem
  | dead =>
    refine ⟨.dead, rfl, hnumCreated.symm ▸ hagrees.1, fun t ht => ?_⟩
    obtain ⟨hout, hnotQueued⟩ := hagrees.2 t ⟨hheap ▸ ht.1, ht.2⟩
    exact ⟨fun e he => hout e (hentries e he), hqueued.symm ▸ hnotQueued⟩

theorem agrees_callback {now : ℤ} {expired left : List Entry}
    (hbatch : q.batch = some ⟨now, expired, e :: left⟩) (ht : q.heap e.timer = some t) :
    ∃ life', life.next id (.ran ⟨e.timer, t.sequence⟩) = some life' ∧
      Agrees { q with batch := some ⟨now, expired, left⟩ } id life' := by
  have hleft : q.left = e :: left := by
    rw [TimerQueue.left, hbatch]
    rfl
  have hexpired : q.expired = expired := by
    rw [TimerQueue.expired, hbatch]
    rfl
  have he : e ∈ q.expired := h.left_subset (hleft ▸ List.mem_cons_self)
  have haddresses : (q.left.map Entry.timer).Nodup :=
    (List.nodup_append.1 (List.nodup_append.1 h.addresses).2.1).1.sublist (h.left.sublist.map _)
  rw [hleft, List.map_cons, List.nodup_cons] at haddresses
  by_cases hid : (⟨e.timer, t.sequence⟩ : TimerId) = id
  · subst hid
    obtain ⟨t', ht', htime⟩ := h.away e he
    obtain rfl : t = t' := Option.some_inj.1 (ht.symm.trans ht')
    have hentry : (⟨t.expiration, e.timer⟩ : Entry) = e := by rw [htime]
    rcases hagrees.cases ⟨ht, rfl⟩ ⟨e, List.mem_append_right _ he, rfl⟩ with
      rfl | ⟨c, rfl⟩ | ⟨c, rfl⟩
    · exact (h.disjoint hagrees.2 he rfl).elim
    · refine ⟨.called t c, if_pos rfl, hagrees.1, ?_, ?_, hagrees.2.2⟩
      · change _ ∈ expired
        rw [← hexpired]
        exact h.left_subset hagrees.2.1
      · exact fun hmem => haddresses.1 (List.mem_map.2 ⟨_, hmem, rfl⟩)
    · refine absurd ?_ hagrees.2.2.1
      rw [hleft, hentry]
      exact List.mem_cons_self
  · refine ⟨life, if_neg hid, ?_⟩
    by_cases haddress : e.timer = id.timer
    · have hnot : ∀ t', ¬ q.Has id t' := by
        apply not_has_of_ne (haddress ▸ ht)
        rw [← haddress]
        exact hid
      exact hagrees.of_not_has hnot hnot le_rfl
    · refine hagrees.frame rfl (fun _ => Iff.rfl) (fun time => ?_) (fun time => ?_) Iff.rfl le_rfl
        fun hmem => hmem
      · rw [hexpired]
        exact Iff.rfl
      · rw [hleft, List.mem_cons, or_iff_right fun heq => haddress (congrArg Entry.timer heq).symm]
        exact Iff.rfl

theorem agrees_finish {now : ℤ} {expired : List Entry}
    (hbatch : q.batch = some ⟨now, expired, []⟩)
    (hreset : reset { q with batch := none } expired now = some q') :
    ∃ life', life.next id (.finished now) = some life' ∧ q'.Agrees id life' := by
  have hexpired : q.expired = expired := by
    rw [TimerQueue.expired, hbatch]
    rfl
  have hleft : q.left = [] := by
    rw [TimerQueue.left, hbatch]
    rfl
  have hkeeps : Keeps { q with batch := none } expired :=
    ⟨h.ascending, h.scheduled, h.active, hexpired ▸ h.addresses, h.created, h.queued,
      hexpired ▸ h.away⟩
  obtain ⟨q₁, q₂, hfold, hreset', hq₂, -, hnone, -⟩ := hkeeps.reset (h.now _ hbatch)
    fun first hfirst hle => h.covers first hfirst (.inr hle)
  obtain rfl : q₂ = q' := Option.some_inj.1 (hreset'.symm.trans hreset)
  have hr : Reset now expired { q with batch := none } q₂ := by
    have hr := reset_foldlM hkeeps hfold
    rcases hq₂ with rfl | ⟨time, rfl⟩
    · exact hr
    · exact ⟨hr.cancelingTimers, hr.numCreated, hr.queued, hr.heap_other, hr.timers_other, hr.again,
        hr.deleted⟩
  have hnone' : q₂.expired = [] := by
    rw [TimerQueue.expired, hnone]
    rfl
  -- what has an object at the end has had one, and is in the queue when it was
  have hback : ∀ t', q₂.Has id t' → ∃ t, q.Has id t ∧
      ((∀ e ∈ q.timers ++ q.expired, e.timer ≠ id.timer) →
        ∀ e ∈ q₂.timers ++ q₂.expired, e.timer ≠ id.timer) := by
    rintro t' ⟨ht', hsequence⟩
    by_cases hmem : ∃ e ∈ expired, e.timer = id.timer
    · obtain ⟨e, he, heq⟩ := hmem
      obtain ⟨t, ht, -⟩ := hkeeps.away e he
      refine ⟨t, ⟨heq ▸ ht, ?_⟩, fun hall => absurd heq (hall e ?_)⟩
      · by_cases hagain : Again { q with batch := none } e t
        · have hheap := (hr.again e he t ht hagain).1
          rw [heq, ht', Option.some_inj] at hheap
          rw [← hsequence, hheap]
          rfl
        · have hheap := hr.deleted e he t ht hagain
          rw [heq, ht'] at hheap
          cases hheap
      · exact List.mem_append_right _ (hexpired ▸ he)
    · push Not at hmem
      refine ⟨t', ⟨(hr.heap_other _ hmem).symm.trans ht', hsequence⟩, fun hall e he heq => ?_⟩
      rw [hnone', List.append_nil] at he
      have hold : e ∈ q.timers := (hr.timers_other e fun f hf => heq ▸ hmem f hf).1 he
      exact hall e (List.mem_append_left _ hold) heq
  cases life with
  | unborn =>
    refine ⟨.unborn, rfl, fun t' ht' => ?_⟩
    obtain ⟨t, ht, hout⟩ := hback t' ht'
    exact hout (hagrees t ht)
  | waiting t =>
    obtain ⟨⟨ht, hsequence⟩, hentry⟩ := hagrees
    have hother : ∀ e ∈ expired, e.timer ≠ id.timer :=
      fun e he => (h.disjoint hentry (hexpired ▸ he)).symm
    exact ⟨.waiting t, rfl, ⟨(hr.heap_other _ hother).trans ht, hsequence⟩,
      (hr.timers_other _ hother).2 hentry⟩
  | expired t c =>
    have hmem := hagrees.2.1
    rw [hleft] at hmem
    cases hmem
  | called t c =>
    obtain ⟨⟨ht, hsequence⟩, hentry, -, hc⟩ := hagrees
    rw [hexpired] at hentry
    have hagain : Again { q with batch := none } ⟨t.expiration, id.timer⟩ t ↔
        t.repeat_ ∧ c = false := by
      rw [Again, hsequence, ← Bool.not_eq_true, hc]
    refine ⟨_, rfl, ?_⟩
    split_ifs with hcase
    · obtain ⟨hheap, htimers⟩ := hr.again _ hentry t ht (hagain.2 hcase)
      exact ⟨⟨hheap, hsequence⟩, htimers⟩
    · have hheap := hr.deleted _ hentry t ht (mt hagain.1 hcase)
      refine ⟨hr.numCreated.symm ▸ hsequence ▸ (h.created _ t ht).1, fun t' ht' => ?_⟩
      cases hheap.symm.trans ht'.1
  | dead =>
    refine ⟨.dead, rfl, hr.numCreated.symm ▸ hagrees.1, fun t' ht' => ?_⟩
    obtain ⟨t, ht, hout⟩ := hback t' ht'
    obtain ⟨hall, hnotQueued⟩ := hagrees.2 t ht
    exact ⟨hout hall, hr.queued.symm ▸ hnotQueued⟩

/-- **A step is one of the life of a timer**, whichever timer it is about. -/
theorem agrees_step {i : TimerInput} (hi : q.Possible i) {events : List TimerEvent}
    (hstep : q.step i = some (events, q')) :
    ∃ life', Life.run id life events = some life' ∧ q'.Agrees id life' := by
  -- a step has one event or none
  have hone : ∀ {event : TimerEvent} {life' : Life}, life.next id event = some life' →
      Life.run id life [event] = some life' := by
    intro event life' hnext
    rw [Life.run_cons, hnext]
    rfl
  cases i with
  | create timer time interval repeat_ =>
    cases hstep
    exact ⟨life, rfl, agrees_create h hagrees hi.1⟩
  | add timer =>
    obtain ⟨t, ht⟩ := h.queued timer hi
    obtain ⟨life', hnext, hagrees'⟩ := agrees_add h hagrees hi ht
    obtain ⟨hkeeps, hfresh⟩ := h.toKeeps.dequeue hi
    obtain ⟨q₁, hadd, -, -, hq₁⟩ := hkeeps.addTimerInLoop h.covers ht hfresh
    rw [step, ht, Option.bind_some, hadd] at hstep
    cases hstep
    refine ⟨life', hone hnext, ?_⟩
    rcases hq₁ with rfl | rfl <;> exact hagrees'
  | cancel id' =>
    obtain ⟨q₁, hcancel, heq⟩ := Option.map_eq_some_iff.1 hstep
    cases heq
    obtain ⟨life', hnext, hagrees'⟩ := agrees_cancel h hagrees hcancel
    exact ⟨life', hone hnext, hagrees'⟩
  | alarm now =>
    obtain ⟨q₁, halarm, heq⟩ := Option.map_eq_some_iff.1 hstep
    cases heq
    obtain ⟨life', hnext, hagrees'⟩ := agrees_alarm h hagrees hi.1 halarm
    exact ⟨life', hone hnext, hagrees'⟩
  | callback =>
    cases hbatch : q.batch with
    | none =>
      rw [step, hbatch] at hstep
      cases hstep
      exact ⟨life, rfl, hagrees⟩
    | some b =>
      obtain ⟨now, expired, left⟩ := b
      cases left with
      | nil =>
        rw [step, hbatch] at hstep
        cases hstep
        exact ⟨life, rfl, hagrees⟩
      | cons e left =>
        have he : e ∈ q.expired := by
          refine h.left_subset ?_
          rw [TimerQueue.left, hbatch]
          exact List.mem_cons_self
        obtain ⟨t, ht, -⟩ := h.away e he
        rw [step_callback hbatch ht] at hstep
        cases hstep
        obtain ⟨life', hnext, hagrees'⟩ := agrees_callback h hagrees hbatch ht
        exact ⟨life', hone hnext, hagrees'⟩
  | finish =>
    cases hbatch : q.batch with
    | none =>
      rw [step, hbatch] at hstep
      cases hstep
      exact ⟨life, rfl, hagrees⟩
    | some b =>
      obtain ⟨now, expired, left⟩ := b
      cases left with
      | cons e left =>
        rw [step, hbatch] at hstep
        cases hstep
        exact ⟨life, rfl, hagrees⟩
      | nil =>
        rw [step, hbatch] at hstep
        obtain ⟨q₁, hreset, heq⟩ := Option.map_eq_some_iff.1 hstep
        cases heq
        obtain ⟨life', hnext, hagrees'⟩ := agrees_finish h hagrees hbatch hreset
        exact ⟨life', hone hnext, hagrees'⟩

theorem agrees_run {is : List TimerInput} (his : q.PossibleRun is) {out : List (List TimerEvent)}
    (hrun : runs step q is = some (out, q')) :
    q'.Sound ∧ ∃ life', Life.run id life out.flatten = some life' ∧ q'.Agrees id life' := by
  induction is generalizing q life out with
  | nil =>
    cases hrun
    exact ⟨h, life, rfl, hagrees⟩
  | cons i is ih =>
    obtain ⟨hi, hrest⟩ := (along_cons _ _ _).1 his
    obtain ⟨events, q₁, out₁, hstep, hrun₁, rfl⟩ := runs_cons_eq_some.1 hrun
    obtain ⟨events', q₁', hstep', hsound⟩ := h.sound_step hi
    obtain ⟨rfl, rfl⟩ := Prod.mk.inj (Option.some_inj.1 (hstep.symm.trans hstep'))
    obtain ⟨life₁, hlife, hagrees₁⟩ := agrees_step h hagrees hi hstep
    obtain ⟨hsound', life', hlife', hagrees'⟩ :=
      ih hsound hagrees₁ (hrest q₁ (by rw [hstep]; rfl)) hrun₁
    refine ⟨hsound', life', ?_, hagrees'⟩
    rw [List.flatten_cons, Life.run_append, hlife]
    exact hlife'

end Steps

/-- In a new queue every timer is unborn. -/
theorem agrees_new (id : TimerId) : Agrees {} id .unborn := by
  rintro _ ⟨h, -⟩
  cases h

/-- **Every timer has one life.** In every possible run, what a queue makes known of a timer is a life: the
timer waits, is called once at a ring that is not earlier than its expiration, waits again from the time of
that ring when it repeats and has not been cancelled, and is never called otherwise; and the queue has of
the timer what belongs to that point of its life. -/
theorem lives {is : List TimerInput} (h : PossibleRun {} is) (id : TimerId) :
    ∃ out q life, runs step {} is = some (out, q) ∧
      Life.run id .unborn out.flatten = some life ∧ q.Agrees id life := by
  obtain ⟨out, q, hrun, -⟩ := sound_new.sound_run h
  obtain ⟨-, life, hlife, hagrees⟩ := agrees_run sound_new (agrees_new id) h hrun
  exact ⟨out, q, life, hrun, hlife, hagrees⟩

theorem lives_cancelled : ∃ out q life, runs step {}
      ([.create 1 100 50 true, .add 1, .alarm 120] ++ .cancel ⟨1, 1⟩ :: [.callback, .finish]) =
        some (out, q) ∧
      Life.run ⟨1, 1⟩ .unborn out.flatten = some life ∧ q.Agrees ⟨1, 1⟩ life :=
  lives possibleRun_cancelled ⟨1, 1⟩

/-- **A cancelled timer is not called again.** When a timer has been inserted and is then cancelled, it is
called at most once more, whatever comes later, and only in a batch that was at hand when it was
cancelled. -/
theorem called_after_cancel {is₁ is₂ : List TimerInput} {id : TimerId}
    (h : PossibleRun {} (is₁ ++ .cancel id :: is₂)) :
    ∃ out₁ q₁ out₂ q₂, runs step {} is₁ = some (out₁, q₁) ∧
      runs step q₁ (.cancel id :: is₂) = some (out₂, q₂) ∧
      ∀ t, .added id t ∈ out₁.flatten → out₂.flatten.count (.ran id) ≤ 1 ∧
        (q₁.batch = none → .ran id ∉ out₂.flatten) := by
  obtain ⟨his₁, his₂⟩ := along_append h
  obtain ⟨out₁, q₁, hrun₁, hsound⟩ := sound_new.sound_run his₁
  obtain ⟨-, life₁, hlife₁, hagrees⟩ := agrees_run sound_new (agrees_new id) his₁ hrun₁
  obtain ⟨out₂, q₂, hrun₂, -⟩ := hsound.sound_run (his₂ out₁ q₁ hrun₁)
  refine ⟨out₁, q₁, out₂, q₂, hrun₁, hrun₂, fun t hadded => ?_⟩
  have hborn : life₁ ≠ .unborn := Life.run_ne_unborn hlife₁ (.inr ⟨t, hadded⟩)
  obtain ⟨-, life₂, hlife₂, -⟩ := agrees_run hsound hagrees (his₂ out₁ q₁ hrun₁) hrun₂
  -- the first event is that of the cancellation
  obtain ⟨events, q', out', hstep, -, rfl⟩ := runs_cons_eq_some.1 hrun₂
  obtain ⟨q'', -, heq⟩ := Option.map_eq_some_iff.1 hstep
  obtain ⟨rfl, rfl⟩ := Prod.mk.inj heq
  rw [List.flatten_cons, Life.run_append, Option.bind_eq_some_iff] at hlife₂
  obtain ⟨life, hlife, hrest⟩ := hlife₂
  have hnext : life₁.next id (.cancelled id) = some life := by
    rw [← hlife, Life.run_cons]
    cases life₁.next id (.cancelled id) <;> rfl
  have hcount : ([.cancelled id] :: out').flatten.count (.ran id) = out'.flatten.count (.ran id) := by
    simp
  rw [hcount]
  have hmem : TimerEvent.ran id ∈ ([.cancelled id] :: out').flatten ↔ .ran id ∈ out'.flatten := by
    simp
  rw [hmem, ← List.count_eq_zero]
  obtain ⟨n, hn, hle, hzero⟩ := Life.callsLeft_cancelled hnext hborn
  have hleft := Life.count_ran_le hrest hn
  refine ⟨hleft.trans hle, fun hnone => Nat.le_zero.1 (hleft.trans (hzero ?_).le)⟩
  rintro t' c rfl
  have hentry := hagrees.2.1
  rw [TimerQueue.left, hnone] at hentry
  cases hentry

theorem called_after_cancel_once : ∃ out₁ q₁ out₂ q₂,
    runs step {} [.create 1 100 50 true, .add 1, .alarm 120] = some (out₁, q₁) ∧
      runs step q₁ (.cancel ⟨1, 1⟩ :: [.callback, .finish]) = some (out₂, q₂) ∧
      ∀ t, .added ⟨1, 1⟩ t ∈ out₁.flatten → out₂.flatten.count (.ran ⟨1, 1⟩) ≤ 1 ∧
        (q₁.batch = none → .ran ⟨1, 1⟩ ∉ out₂.flatten) :=
  called_after_cancel possibleRun_cancelled

end Agrees

end TimerQueue

end Net

end GraduationServer
