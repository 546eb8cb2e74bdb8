import GraduationServer.Foundations.Simulations
import Mathlib.Data.List.Basic

/-!
# The loop of a thread

`EventLoop` (`net/EventLoop.h`, `net/EventLoop.cc`): the loop polls, handles the events, and calls the
functors that have been queued. Any thread may queue a functor or end the loop. A thread other than that of
the loop then writes to an eventfd, which makes `poll` return; what it has queued, it has queued before, so
the loop may come between.

Functors are called in the order in which they were queued, each of them once (`EventLoop.in_order`). While
one is left, or the loop is to end, `poll` does not wait (`EventLoop.never_sleeps`), and when the loop has
handled its events it calls all that are left (`EventLoop.called_by_next_poll`).
-/

namespace GraduationServer

namespace Net

/-- Where the thread of a loop is: before `loop`, at the condition of `while`, in `poll`, at the events (of
which the wakeup may be one), in `doPendingFunctors` with the functors that it has taken, or behind the
loop. -/
inductive LoopPhase (F : Type*)
  | starting
  | checking
  | polling
  | handling (wakeup : Bool)
  | calling (functors : List F)
  | stopped

/-- The members of a loop, with the value of its eventfd, and the number of the threads that have queued a
functor or ended the loop and have not called `wakeup`. -/
structure EventLoop (F : Type*) where
  phase : LoopPhase F := .starting
  pendingFunctors : List F := []
  quit : Bool := false
  wakeups : ℕ := 0
  waking : ℕ := 0

/-- What the threads do. Those other than that of the loop queue a functor or end the loop, and wake it up;
its own thread does the same in a handler or functor, or before `loop`, and goes on with the loop. -/
inductive LoopInput (F : Type*)
  | queueInLoop (f : F)
  | quit
  | wakeup
  | queueHere (f : F)
  | quitHere
  | loop
  | check
  | poll
  | handleRead
  | doPendingFunctors
  | call
  | finish

namespace EventLoop

variable {F : Type*} (s : EventLoop F)

/-- `callingPendingFunctors_`. -/
def callingPendingFunctors : Bool :=
  match s.phase with
  | .calling _ => true
  | _ => false

/-- The functors that have been taken and not called. -/
def taken : List F :=
  match s.phase with
  | .calling functors => functors
  | _ => []

/-- The thread of the loop may call functions of the loop. -/
def isFree : Bool :=
  match s.phase with
  | .starting | .handling _ | .calling _ => true
  | _ => false

/-- A step, with the functors that are called in it; `none` where it is not the next one. The loop runs once,
and `poll` reports the eventfd whenever it is readable. A functor queues others when it is called, not when
it is destroyed. -/
def step (s : EventLoop F) : LoopInput F → Option (List F × EventLoop F)
  | .queueInLoop f =>
    some ([], { s with pendingFunctors := s.pendingFunctors ++ [f], waking := s.waking + 1 })
  | .quit => some ([], { s with quit := true, waking := s.waking + 1 })
  | .wakeup =>
    if 0 < s.waking then some ([], { s with waking := s.waking - 1, wakeups := s.wakeups + 1 }) else none
  | .queueHere f =>
    if s.isFree then
      some ([], { s with
        pendingFunctors := s.pendingFunctors ++ [f]
        wakeups := if s.callingPendingFunctors then s.wakeups + 1 else s.wakeups })
    else none
  | .quitHere => if s.isFree then some ([], { s with quit := true }) else none
  | .loop =>
    match s.phase with
    | .starting => some ([], { s with phase := .checking, quit := false })
    | _ => none
  | .check =>
    match s.phase with
    | .checking => some ([], { s with phase := if s.quit then .stopped else .polling })
    | _ => none
  | .poll =>
    match s.phase with
    | .polling => some ([], { s with phase := .handling (0 < s.wakeups) })
    | _ => none
  | .handleRead =>
    match s.phase with
    | .handling true => some ([], { s with phase := .handling false, wakeups := 0 })
    | _ => none
  | .doPendingFunctors =>
    match s.phase with
    | .handling false => some ([], { s with phase := .calling s.pendingFunctors, pendingFunctors := [] })
    | _ => none
  | .call =>
    match s.phase with
    | .calling (f :: functors) => some ([f], { s with phase := .calling functors })
    | _ => none
  | .finish =>
    match s.phase with
    | .calling [] => some ([], { s with phase := .checking })
    | _ => none

/-- The functor that an input queues. -/
def queued : LoopInput F → List F
  | .queueInLoop f | .queueHere f => [f]
  | _ => []

/-- `poll` returns without waiting, or a thread is about to make it. -/
def Awake : Prop := 0 < s.wakeups ∨ 0 < s.waking

/-- The loop handles the events of a poll. -/
def Handling : Prop := ∃ wakeup, s.phase = .handling wakeup

/-- The loop is awake when it has something to do that it might not come to by itself. -/
structure Sound : Prop where
  functors : ¬ s.Handling → s.pendingFunctors ≠ [] → s.Awake
  quit : s.phase = .polling → s.quit → s.Awake

/-- The next `n` functors are called before the next poll. -/
def Due (n : ℕ) : Prop := (s.Handling ∧ n ≤ s.pendingFunctors.length) ∨ n ≤ s.taken.length

/-- `loop` has not been called. -/
def isStarting : Bool :=
  match s.phase with
  | .starting => true
  | _ => false

/-- What is possible: the thread of the loop queues no functor before `loop`. -/
def Possible (s : EventLoop F) : LoopInput F → Prop
  | .queueHere _ => s.isStarting = false
  | _ => True

instance (s : EventLoop F) : (i : LoopInput F) → Decidable (s.Possible i)
  | .queueHere _ => inferInstanceAs (Decidable (_ = false))
  | .queueInLoop _ | .quit | .wakeup | .quitHere | .loop | .check | .poll | .handleRead
  | .doPendingFunctors | .call | .finish => isTrue trivial

/-- What a step keeps. -/
structure Goes (s : EventLoop F) (i : LoopInput F) (out : List F) (s' : EventLoop F) : Prop where
  order : s.taken ++ (s.pendingFunctors ++ queued i) = out ++ (s'.taken ++ s'.pendingFunctors)
  due : ∀ n, s.Due n → s'.Due (n - out.length)
  sound : s.Sound → s.Possible i → s'.Sound

variable {s} {s' : EventLoop F} {i : LoopInput F} {out : List F}

/-- Another thread does not change where the loop is. -/
theorem goes_of_waking {f : List F} (hphase : s'.phase = s.phase) (hi : queued i = f)
    (hpending : s'.pendingFunctors = s.pendingFunctors ++ f) (hawake : s'.Awake) : Goes s i [] s' := by
  have htaken : s'.taken = s.taken := by rw [taken, taken, hphase]
  refine ⟨?_, fun n hn => ?_, fun _ _ => ⟨fun _ _ => hawake, fun _ _ => hawake⟩⟩
  · rw [htaken, hpending, hi, List.nil_append]
  · rw [Due, Handling, htaken, hpending, hphase, List.length_append]
    exact hn.imp_left fun h => ⟨h.1, Nat.le_add_right_of_le h.2⟩

/-- The loop goes on where no functor is due. -/
theorem goes_of_idle (hi : queued i = []) (hpending : s'.pendingFunctors = s.pendingFunctors)
    (htaken : s.taken = []) (htaken' : s'.taken = []) (hhandling : ¬ s.Handling)
    (hsound : s.Sound → s'.Sound) : Goes s i [] s' := by
  refine ⟨?_, fun n hn => .inr ?_, fun h _ => hsound h⟩
  · rw [hi, hpending, htaken, htaken', List.append_nil]
    rfl
  · have hzero := hn.resolve_left fun h => hhandling h.1
    rw [htaken] at hzero
    rw [htaken']
    exact Nat.le_trans (Nat.sub_le _ _) hzero

theorem not_handling {phase : LoopPhase F} (h : s.phase = phase) (hne : ∀ wakeup, phase ≠ .handling wakeup) :
    ¬ s.Handling := by
  rintro ⟨wakeup, hphase⟩
  exact hne wakeup (h.symm.trans hphase)

theorem handling_of_isFree (h : s.isFree) (hcalling : ¬ s.callingPendingFunctors)
    (hstarting : s.isStarting = false) : s.Handling := by
  cases hphase : s.phase with
  | handling wakeup => exact ⟨wakeup, hphase⟩
  | starting => simp [isStarting, hphase] at hstarting
  | calling functors => simp [callingPendingFunctors, hphase] at hcalling
  | checking | polling | stopped => simp [isFree, hphase] at h

/-- **A step keeps the order of the functors**, calls what is due, and leaves the loop awake. -/
theorem goes_step (h : step s i = some (out, s')) : Goes s i out s' := by
  cases i with
  | queueInLoop f =>
    cases h
    exact goes_of_waking rfl rfl rfl (.inr (Nat.succ_pos _))
  | quit =>
    cases h
    exact goes_of_waking rfl rfl (List.append_nil _).symm (.inr (Nat.succ_pos _))
  | wakeup =>
    simp only [step] at h
    split_ifs at h
    cases h
    exact goes_of_waking rfl rfl (List.append_nil _).symm (.inl (Nat.succ_pos _))
  | queueHere f =>
    have hdue : ∀ n, s.Due n → (s.Handling ∧ n ≤ (s.pendingFunctors ++ [f]).length) ∨ n ≤ s.taken.length := by
      intro n hn
      rw [List.length_append]
      exact hn.imp_left fun h => ⟨h.1, Nat.le_add_right_of_le h.2⟩
    simp only [step] at h
    split_ifs at h with hfree hcalling
    · cases h
      exact ⟨rfl, hdue, fun _ _ => ⟨fun _ _ => .inl (Nat.succ_pos _), fun _ _ => .inl (Nat.succ_pos _)⟩⟩
    · cases h
      refine ⟨rfl, hdue, fun hsound hi => ⟨fun hhandling _ => ?_, hsound.quit⟩⟩
      exact absurd (handling_of_isFree hfree hcalling hi) hhandling
  | quitHere =>
    simp only [step] at h
    split_ifs at h with hfree
    cases h
    refine ⟨?_, fun n hn => hn, fun hsound _ => ⟨hsound.functors, fun hphase => ?_⟩⟩
    · change _ ++ (_ ++ []) = _
      rw [List.append_nil]
      rfl
    · rw [isFree, show s.phase = .polling from hphase] at hfree
      cases hfree
  | loop =>
    simp only [step] at h
    split at h
    · next hphase =>
      cases h
      have hidle := not_handling hphase (by simp)
      refine goes_of_idle rfl rfl (by rw [taken, hphase]) rfl hidle fun hsound => ⟨?_, ?_⟩
      · exact fun _ => hsound.functors hidle
      · rintro ⟨⟩
    · cases h
  | check =>
    simp only [step] at h
    split at h
    · next hphase =>
      cases h
      have hidle := not_handling hphase (by simp)
      refine goes_of_idle rfl rfl (by rw [taken, hphase]) ?_ hidle fun hsound => ⟨?_, ?_⟩
      · simp only [taken]
        cases s.quit <;> rfl
      · exact fun _ => hsound.functors hidle
      · simp only
        split_ifs with hquit
        · rintro ⟨⟩
        · exact fun _ hquit' => absurd hquit' hquit
    · cases h
  | poll =>
    simp only [step] at h
    split at h
    · next hphase =>
      cases h
      refine goes_of_idle rfl rfl (by rw [taken, hphase]) rfl (not_handling hphase (by simp))
        fun hsound => ⟨fun hhandling => absurd ⟨_, rfl⟩ hhandling, ?_⟩
      rintro ⟨⟩
    · cases h
  | handleRead =>
    simp only [step] at h
    split at h
    · next hphase =>
      cases h
      have htaken : s.taken = [] := by rw [taken, hphase]
      refine ⟨?_, fun n hn => ?_, fun _ _ => ⟨fun hhandling => absurd ⟨_, rfl⟩ hhandling, ?_⟩⟩
      · change _ ++ (_ ++ []) = _
        rw [htaken, List.append_nil]
        rfl
      · rw [Due, htaken] at hn
        exact hn.imp_left fun h => ⟨⟨_, rfl⟩, h.2⟩
      · rintro ⟨⟩
    · cases h
  | doPendingFunctors =>
    simp only [step] at h
    split at h
    · next hphase =>
      cases h
      have htaken : s.taken = [] := by rw [taken, hphase]
      refine ⟨?_, fun n hn => .inr ?_, fun _ _ => ⟨fun _ hnil => absurd rfl hnil, ?_⟩⟩
      · rw [htaken]
        rfl
      · rw [Due, htaken] at hn
        exact hn.elim (fun h => h.2) fun h => Nat.le_trans h (Nat.zero_le _)
      · rintro ⟨⟩
    · cases h
  | call =>
    simp only [step] at h
    split at h
    · next f functors hphase =>
      cases h
      have htaken : s.taken = f :: functors := by rw [taken, hphase]
      have hidle := not_handling hphase (by simp)
      refine ⟨?_, fun n hn => .inr ?_, fun hsound _ => ⟨fun _ => hsound.functors hidle, ?_⟩⟩
      · change _ ++ (_ ++ []) = _
        rw [htaken, List.append_nil]
        rfl
      · have hle := hn.resolve_left fun h => hidle h.1
        rw [htaken, List.length_cons] at hle
        exact Nat.sub_le_of_le_add hle
      · rintro ⟨⟩
    · cases h
  | finish =>
    simp only [step] at h
    split at h
    · next hphase =>
      cases h
      have hidle := not_handling hphase (by simp)
      refine goes_of_idle rfl rfl (by rw [taken, hphase]) rfl hidle fun hsound => ⟨?_, ?_⟩
      · exact fun _ => hsound.functors hidle
      · rintro ⟨⟩
    · cases h

/-! ## Runs -/

/-- The functors that are queued in a run. -/
def queuedAll (is : List (LoopInput F)) : List F := is.flatMap queued

theorem order_run {is : List (LoopInput F)} {out : List (List F)} (h : runs step s is = some (out, s')) :
    s.taken ++ s.pendingFunctors ++ queuedAll is = out.flatten ++ (s'.taken ++ s'.pendingFunctors) := by
  induction is generalizing s out with
  | nil =>
    cases h
    exact List.append_nil _
  | cons i is ih =>
    obtain ⟨called, s₁, rest, hstep, hrun, rfl⟩ := runs_cons_eq_some.1 h
    have hfirst := (goes_step hstep).order
    rw [← List.append_assoc] at hfirst
    calc s.taken ++ s.pendingFunctors ++ queuedAll (i :: is)
        = s.taken ++ s.pendingFunctors ++ queued i ++ queuedAll is := by
          rw [queuedAll, List.flatMap_cons, ← List.append_assoc]
          rfl
      _ = called ++ (s₁.taken ++ s₁.pendingFunctors ++ queuedAll is) := by
          rw [hfirst, List.append_assoc]
      _ = (called :: rest).flatten ++ (s'.taken ++ s'.pendingFunctors) := by
          rw [ih hrun, List.flatten_cons, List.append_assoc]

theorem due_run {is : List (LoopInput F)} {out : List (List F)} {n : ℕ}
    (h : runs step s is = some (out, s')) (hn : s.Due n) : s'.Due (n - out.flatten.length) := by
  induction is generalizing s out n with
  | nil =>
    cases h
    exact hn
  | cons i is ih =>
    obtain ⟨called, s₁, rest, hstep, hrun, rfl⟩ := runs_cons_eq_some.1 h
    have hrest := ih hrun ((goes_step hstep).due n hn)
    rwa [Nat.sub_sub, ← List.length_append, ← List.flatten_cons] at hrest

theorem sound_run {is : List (LoopInput F)} {out : List (List F)}
    (his : Along (fun s i => (step s i).map Prod.snd) Possible s is)
    (h : runs step s is = some (out, s')) (hs : s.Sound) : s'.Sound := by
  induction is generalizing s out with
  | nil =>
    cases h
    exact hs
  | cons i is ih =>
    obtain ⟨called, s₁, rest, hstep, hrun, -⟩ := runs_cons_eq_some.1 h
    obtain ⟨hi, hrest⟩ := (along_cons _ _ _).1 his
    exact ih (hrest s₁ (by rw [hstep]; rfl)) hrun ((goes_step hstep).sound hs hi)

/-- **Each functor is called once, in the order of the queue.** After every run of a loop the functors that
have been called, those that have been taken and those that are pending are the ones that were queued. -/
theorem in_order {is : List (LoopInput F)} {out : List (List F)} (h : runs step {} is = some (out, s)) :
    out.flatten ++ (s.taken ++ s.pendingFunctors) = queuedAll is :=
  (order_run h).symm

theorem sound_new : Sound ({} : EventLoop F) :=
  ⟨fun _ hnil => absurd rfl hnil, by rintro ⟨⟩⟩

/-- **No wakeup is lost.** When the loop is in `poll` and a functor is pending or the loop is to end, the
eventfd can be read, so that `poll` returns, or a thread is about to write to it. That does not hold when the
thread of the loop has queued a functor before `loop`. -/
theorem never_sleeps {is : List (LoopInput F)} {out : List (List F)}
    (his : Along (fun s i => (step s i).map Prod.snd) Possible {} is)
    (h : runs step {} is = some (out, s)) (hphase : s.phase = .polling)
    (hdo : s.pendingFunctors ≠ [] ∨ s.quit) : s.Awake := by
  have hsound := sound_run his h sound_new
  exact hdo.elim (hsound.functors (not_handling hphase (by simp))) (hsound.quit hphase)

/-- **What is pending behind a poll is called before the next one**, before anything that is queued later:
whatever is done between, the loop does not come back to `poll`, nor to its end, without. -/
theorem called_by_next_poll {is : List (LoopInput F)} {out : List (List F)} {wakeup : Bool}
    (hphase : s.phase = .handling wakeup) (h : runs step s is = some (out, s'))
    (hphase' : s'.phase = .polling ∨ s'.phase = .stopped) : s.pendingFunctors <+: out.flatten := by
  have htaken : s.taken = [] := by rw [taken, hphase]
  have htaken' : s'.taken = [] := by
    rcases hphase' with h | h <;> rw [taken, h]
  have hidle : ¬ s'.Handling := by
    rcases hphase' with h | h <;> exact not_handling h (by simp)
  have hdue := due_run h (.inl ⟨⟨wakeup, hphase⟩, Nat.le_refl s.pendingFunctors.length⟩)
  have hle := hdue.resolve_left fun hhandling => hidle hhandling.1
  have horder := order_run h
  rw [htaken, htaken', List.nil_append, List.nil_append] at horder
  rw [htaken', List.length_nil, Nat.le_zero, Nat.sub_eq_zero_iff_le] at hle
  have hout : out.flatten <+: s.pendingFunctors ++ queuedAll is := by
    rw [horder]
    exact List.prefix_append _ _
  exact List.prefix_of_prefix_length_le (List.prefix_append _ _) hout hle

/-! ## A run -/

/-- The loop comes to the events of a poll when another thread has queued a functor and has not woken it. -/
def toEvents : List (LoopInput ℕ) := [.loop, .check, .queueInLoop 1, .poll]

/-- The functor queues another one. -/
def toNextPoll : List (LoopInput ℕ) :=
  [.wakeup, .doPendingFunctors, .call, .queueHere 2, .finish, .check]

theorem in_order_toNextPoll : ∃ out s, runs step {} (toEvents ++ toNextPoll) = some (out, s) ∧
    out.flatten ++ (s.taken ++ s.pendingFunctors) = queuedAll (toEvents ++ toNextPoll) := by
  have hrun : runs step {} (toEvents ++ toNextPoll) =
      some ([[], [], [], [], [], [], [1], [], [], []], ⟨.polling, [2], false, 2, 0⟩) := rfl
  exact ⟨_, _, hrun, in_order hrun⟩

theorem never_sleeps_toNextPoll : ∃ out s, runs step {} (toEvents ++ toNextPoll) = some (out, s) ∧
    s.phase = .polling ∧ s.Awake := by
  have hpossible : Along (fun s i => (step s i).map Prod.snd) Possible ({} : EventLoop ℕ)
      (toEvents ++ toNextPoll) := by decide
  exact ⟨_, _, rfl, rfl, never_sleeps hpossible rfl rfl (.inl (by simp))⟩

theorem called_by_next_poll_toNextPoll : ∃ out s out' s', runs step {} toEvents = some (out, s) ∧
    runs step s toNextPoll = some (out', s') ∧ s.pendingFunctors <+: out'.flatten := by
  have hevents : runs step {} toEvents =
      some ([[], [], [], []], ⟨.handling false, [1], false, 0, 1⟩) := rfl
  have hrun : runs step ⟨.handling false, [1], false, 0, 1⟩ toNextPoll =
      some ([[], [], [1], [], [], []], ⟨.polling, [2], false, 2, 0⟩) := rfl
  exact ⟨_, _, _, _, hevents, hrun, called_by_next_poll rfl hrun (.inl rfl)⟩

/-- A functor that the thread of the loop queues before `loop` wakes nobody. -/
example : ∃ out s, runs step {} [.queueHere 1, .loop, .check] = some (out, s) ∧ s.phase = .polling ∧
    s.pendingFunctors ≠ [] ∧ ¬ s.Awake :=
  ⟨_, _, rfl, rfl, by simp, by simp [Awake, callingPendingFunctors]⟩

end EventLoop

end Net

end GraduationServer
