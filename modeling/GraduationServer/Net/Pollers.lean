import GraduationServer.Foundations.Positions
import GraduationServer.Foundations.Simulations

/-!
# The two pollers

A loop watches its channels with `EPollPoller` (`net/poller/EPollPoller.cc`), or with `PollPoller`
(`net/poller/PollPoller.cc`) when an environment variable asks for it. The first has the kernel keep what is
watched, and a channel knows whether it is there; the second keeps an array for the kernel, and a channel
knows its position in it, which changes when another channel is removed.

`Watch` is what both are for: which channels are watched, and for which events. In every run that keeps to
the contract of the channels no assertion of either poller fails, the kernel is asked for the same, and each
poll reports the channels that are ready (`pollers_agree`). There is a place in the library that breaks the
contract, and there they differ (`pollers_differ`).
-/

namespace GraduationServer

namespace Net

/-! ## Channels -/

/-- `events_` of a channel, which is made of `kReadEvent` and `kWriteEvent`. -/
structure Events where
  reading : Bool := false
  writing : Bool := false
  deriving DecidableEq

/-- `kNoneEvent`. -/
def kNoneEvent : Events := {}

/-- The calls of a channel that lead to an update of the poller. -/
inductive ChannelCall
  | enableReading
  | disableReading
  | enableWriting
  | disableWriting
  | disableAll
  deriving DecidableEq

/-- What a call makes of `events_`. -/
def ChannelCall.apply (e : Events) : ChannelCall → Events
  | .enableReading => { e with reading := true }
  | .disableReading => { e with reading := false }
  | .enableWriting => { e with writing := true }
  | .disableWriting => { e with writing := false }
  | .disableAll => kNoneEvent

/-- What a loop asks of its poller: a channel is updated or removed, or the descriptors are polled. Then the
kernel knows what there is of each descriptor, 0 if nothing; `epoll_wait` has room for a number of events and
comes to some of the descriptors, in an order of its own. -/
inductive PollerInput (C : Type*)
  | update (channel : C) (call : ChannelCall)
  | remove (channel : C)
  | poll (revents : ℕ → ℕ) (looked : List ℕ)

variable {C : Type*} [DecidableEq C] (fd : C → ℕ)

/-! ## What is watched -/

/-- A channel is removed once, and is not used behind that. -/
inductive Status
  | fresh
  | watched
  | removed
  deriving DecidableEq

/-- Which channels are watched, and for what. -/
structure Watch (C : Type*) where
  status : C → Status := fun _ => .fresh
  events : C → Events := fun _ => kNoneEvent

namespace Watch

/-- The channels that are watched for anything and are ready, with what there is. -/
def ready (w : Watch C) (revents : ℕ → ℕ) : Set (C × ℕ) :=
  {x | w.status x.1 = .watched ∧ w.events x.1 ≠ kNoneEvent ∧ revents (fd x.1) = x.2 ∧ x.2 ≠ 0}

/-- The channels behind an update. -/
def updated (w : Watch C) (c : C) (call : ChannelCall) : Watch C where
  status := Function.update w.status c .watched
  events := Function.update w.events c (call.apply (w.events c))

/-- The channels behind a removal. -/
def dropped (w : Watch C) (c : C) : Watch C := { w with status := Function.update w.status c .removed }

/-- A step, with what is ready in a poll, and what of that `epoll_wait` comes to. -/
def step (w : Watch C) : PollerInput C → Option ((Set (C × ℕ) × Set (C × ℕ)) × Watch C)
  | .update c call => some ((∅, ∅), w.updated c call)
  | .remove c => some ((∅, ∅), w.dropped c)
  | .poll revents looked =>
    some ((w.ready fd revents, {x ∈ w.ready fd revents | fd x.1 ∈ looked}), w)

/-- The contract of the channels: no two that are watched have one descriptor; an update is not made from no
events to none; and a channel is removed when it is watched for nothing, which is the end of it. And
`epoll_wait` comes to no descriptor twice. -/
def Possible (w : Watch C) : PollerInput C → Prop
  | .update c call => (w.status c = .fresh → ∀ d, w.status d = .watched → fd d ≠ fd c) ∧
      w.status c ≠ .removed ∧ (call.apply (w.events c) = kNoneEvent → w.events c ≠ kNoneEvent)
  | .remove c => w.status c = .watched ∧ w.events c = kNoneEvent
  | .poll _ looked => looked.Nodup

end Watch

/-! ## `EPollPoller` -/

/-- What `epoll_ctl` is asked for. -/
inductive CtlOp
  | add
  | mod
  | del

/-- The members of the poller, with what it uses of the channels, and the list of the kernel. -/
structure EPollPoller (C : Type*) where
  channels : ℕ → Option C := fun _ => none
  events : C → Events := fun _ => kNoneEvent
  index : C → ℤ := fun _ => -1
  interest : ℕ → Option (C × Events) := fun _ => none

namespace EPollPoller

def kNew : ℤ := -1

def kAdded : ℤ := 1

def kDeleted : ℤ := 2

variable (p : EPollPoller C) (c : C)

/-- `update`. The kernel refuses to add what is there and to modify what is not, and the program ends; a
deletion that is refused is logged. -/
def update : CtlOp → Option (EPollPoller C)
  | .add =>
    if p.interest (fd c) = none then
      some { p with interest := Function.update p.interest (fd c) (some (c, p.events c)) }
    else none
  | .mod =>
    if p.interest (fd c) = none then none
    else some { p with interest := Function.update p.interest (fd c) (some (c, p.events c)) }
  | .del => some { p with interest := Function.update p.interest (fd c) none }

/-- `updateChannel`. -/
def updateChannel : Option (EPollPoller C) :=
  if p.index c = kNew ∨ p.index c = kDeleted then
    if p.index c = kNew then
      if p.channels (fd c) = none then
        update fd { p with
          channels := Function.update p.channels (fd c) (some c)
          index := Function.update p.index c kAdded } c .add
      else none
    else if p.channels (fd c) = some c then
      update fd { p with index := Function.update p.index c kAdded } c .add
    else none
  else if p.channels (fd c) = some c ∧ p.index c = kAdded then
    if p.events c = kNoneEvent then
      (update fd p c .del).map fun p => { p with index := Function.update p.index c kDeleted }
    else update fd p c .mod
  else none

/-- `removeChannel`. -/
def removeChannel : Option (EPollPoller C) :=
  if p.channels (fd c) = some c ∧ p.events c = kNoneEvent ∧
      (p.index c = kAdded ∨ p.index c = kDeleted) then
    let erased := { p with channels := Function.update p.channels (fd c) none }
    (if p.index c = kAdded then update fd erased c .del else some erased).map fun p =>
      { p with index := Function.update p.index c kNew }
  else none

/-- What `epoll_wait` reports of the descriptors that it comes to. -/
def epollWait (revents : ℕ → ℕ) (looked : List ℕ) : List (C × ℕ) :=
  looked.filterMap fun f => (p.interest f).bind fun x =>
    if revents f = 0 then none else some (x.1, revents f)

/-- `fillActiveChannels`: the report names the channels, which are looked up for an assertion. -/
def fillActiveChannels (reported : List (C × ℕ)) : Option (List (C × ℕ)) :=
  if ∀ x ∈ reported, p.channels (fd x.1) = some x.1 then some reported else none

/-- A step, with the active channels of a poll. -/
def step (p : EPollPoller C) : PollerInput C → Option (List (C × ℕ) × EPollPoller C)
  | .update c call =>
    (updateChannel fd { p with events := Function.update p.events c (call.apply (p.events c)) } c).map
      fun p => ([], p)
  | .remove c => (removeChannel fd p c).map fun p => ([], p)
  | .poll revents looked =>
    (fillActiveChannels fd p (p.epollWait revents looked)).map fun active => (active, p)

end EPollPoller

/-! ## `PollPoller` -/

/-- `struct pollfd`; a negative descriptor is ignored. -/
structure PollFd where
  fd : ℤ
  events : Events

/-- The members of the poller, with what it uses of the channels. -/
structure PollPoller (C : Type*) where
  channels : ℕ → Option C := fun _ => none
  events : C → Events := fun _ => kNoneEvent
  index : C → ℤ := fun _ => -1
  pollfds : List PollFd := []

namespace PollPoller

variable (p : PollPoller C) (c : C)

/-- `updateChannel`. -/
def updateChannel : Option (PollPoller C) :=
  if p.index c < 0 then
    if p.channels (fd c) = none then
      some { p with
        pollfds := p.pollfds ++ [⟨fd c, p.events c⟩]
        index := Function.update p.index c p.pollfds.length
        channels := Function.update p.channels (fd c) (some c) }
    else none
  else if p.channels (fd c) = some c then
    match p.pollfds[(p.index c).toNat]? with
    | none => none
    | some pfd =>
      if pfd.fd = fd c ∨ pfd.fd = -(fd c) - 1 then
        some { p with
          pollfds := p.pollfds.set (p.index c).toNat
            ⟨if p.events c = kNoneEvent then -(fd c) - 1 else fd c, p.events c⟩ }
      else none
  else none

/-- `removeChannel`: the last one is put into the place of the one that is removed, and the channel at the
end is told. -/
def removeChannel : Option (PollPoller C) :=
  if p.channels (fd c) = some c ∧ p.events c = kNoneEvent ∧ 0 ≤ p.index c then
    match p.pollfds[(p.index c).toNat]? with
    | none => none
    | some pfd =>
      if pfd.fd = -(fd c) - 1 ∧ pfd.events = p.events c then
        let channels := Function.update p.channels (fd c) none
        if (p.index c).toNat + 1 = p.pollfds.length then
          some { p with channels, pollfds := p.pollfds.dropLast }
        else
          p.pollfds.getLast?.bind fun back =>
            let channelAtEnd := if back.fd < 0 then -back.fd - 1 else back.fd
            (channels channelAtEnd.toNat).map fun d => { p with
              channels
              index := Function.update p.index d (p.index c)
              pollfds := swapRemove p.pollfds (p.index c).toNat }
      else none
  else none

/-- The loop of `fillActiveChannels` over the array, while there are events left. -/
def fillFrom (revents : ℕ → ℕ) : ℕ → List PollFd → Option (List (C × ℕ))
  | 0, _ => some []
  | _ + 1, [] => some []
  | numEvents + 1, pfd :: pollfds =>
    if 0 ≤ pfd.fd ∧ revents pfd.fd.toNat ≠ 0 then
      (p.channels pfd.fd.toNat).bind fun channel =>
        if (fd channel : ℤ) = pfd.fd then
          (fillFrom revents numEvents pollfds).map fun active =>
            (channel, revents pfd.fd.toNat) :: active
        else none
    else fillFrom revents (numEvents + 1) pollfds

/-- `fillActiveChannels`, with the number of descriptors for which there is something, as `poll` counts. -/
def fillActiveChannels (revents : ℕ → ℕ) : Option (List (C × ℕ)) :=
  fillFrom fd p revents (p.pollfds.countP fun pfd => 0 ≤ pfd.fd ∧ revents pfd.fd.toNat ≠ 0) p.pollfds

/-- A step, with the active channels of a poll. -/
def step (p : PollPoller C) : PollerInput C → Option (List (C × ℕ) × PollPoller C)
  | .update c call =>
    (updateChannel fd { p with events := Function.update p.events c (call.apply (p.events c)) } c).map
      fun p => ([], p)
  | .remove c => (removeChannel fd p c).map fun p => ([], p)
  | .poll revents _ => (fillActiveChannels fd p revents).map fun active => (active, p)

end PollPoller

/-! ## What the channels keep to -/

variable {fd} {w w' : Watch C} {c d : C} {call : ChannelCall}

/-- A channel that has not been watched waits for nothing, and no two that are watched have one descriptor. -/
structure Watch.Sound (fd : C → ℕ) (w : Watch C) : Prop where
  fresh : ∀ c, w.status c = .fresh → w.events c = kNoneEvent
  apart : ∀ c d, w.status c = .watched → w.status d = .watched → fd c = fd d → c = d

namespace Watch

theorem updated_status (hd : d ≠ c) : (w.updated c call).status d = w.status d :=
  Function.update_of_ne hd ..

theorem updated_events (hd : d ≠ c) : (w.updated c call).events d = w.events d :=
  Function.update_of_ne hd ..

@[simp] theorem updated_status_self : (w.updated c call).status c = .watched := Function.update_self ..

@[simp] theorem updated_events_self : (w.updated c call).events c = call.apply (w.events c) :=
  Function.update_self ..

theorem dropped_status (hd : d ≠ c) : (w.dropped c).status d = w.status d := Function.update_of_ne hd ..

@[simp] theorem dropped_status_self : (w.dropped c).status c = .removed := Function.update_self ..

@[simp] theorem dropped_events : (w.dropped c).events = w.events := rfl

omit [DecidableEq C] in
/-- Another channel that is watched has another descriptor than the one that is updated. -/
theorem Sound.others (hw : w.Sound fd) (h : w.Possible fd (.update c call)) (hd : d ≠ c)
    (hwatched : w.status d = .watched) : fd d ≠ fd c := by
  intro hfd
  cases hc : w.status c with
  | fresh => exact h.1 hc d hwatched hfd
  | watched => exact hd (hw.apart d c hwatched hc hfd)
  | removed => exact h.2.1 hc

theorem Sound.updated (hw : w.Sound fd) (h : w.Possible fd (.update c call)) :
    (w.updated c call).Sound fd where
  fresh d hd := by
    have hne : d ≠ c := by
      rintro rfl
      simp at hd
    rw [updated_status hne] at hd
    rw [updated_events hne, hw.fresh d hd]
  apart d e hd he hfd := by
    by_cases hdc : d = c
    · subst hdc
      by_contra hne
      rw [updated_status (Ne.symm hne)] at he
      exact hw.others h (Ne.symm hne) he hfd.symm
    · rw [updated_status hdc] at hd
      by_cases hec : e = c
      · subst hec
        exact absurd hfd (hw.others h hdc hd)
      · rw [updated_status hec] at he
        exact hw.apart d e hd he hfd

theorem Sound.dropped (hw : w.Sound fd) : (w.dropped c).Sound fd where
  fresh d hd := by
    have hne : d ≠ c := by
      rintro rfl
      simp at hd
    rw [dropped_status hne] at hd
    exact hw.fresh d hd
  apart d e hd he := by
    have hne : ∀ d, (w.dropped c).status d = .watched → w.status d = .watched := by
      intro d hd
      rw [← hd]
      refine (dropped_status ?_).symm
      rintro rfl
      simp at hd
    exact hw.apart d e (hne d hd) (hne e he)

end Watch

/-! ## The map of channels -/

/-- The map from descriptors to channels has the channels that are watched. -/
def Lists (fd : C → ℕ) (channels : ℕ → Option C) (w : Watch C) : Prop :=
  ∀ f c, channels f = some c ↔ fd c = f ∧ w.status c = .watched

omit [DecidableEq C] in
theorem Lists.self {channels : ℕ → Option C} (h : Lists fd channels w) (hc : w.status c = .watched) :
    channels (fd c) = some c :=
  (h _ _).2 ⟨rfl, hc⟩

omit [DecidableEq C] in
theorem Lists.eq_none {channels : ℕ → Option C} (h : Lists fd channels w)
    (hc : ∀ d, w.status d = .watched → fd d ≠ fd c) : channels (fd c) = none := by
  cases hlookup : channels (fd c) with
  | none => rfl
  | some d =>
    obtain ⟨hfd, hd⟩ := (h _ _).1 hlookup
    exact absurd hfd (hc d hd)

/-- A channel that is watched already is updated. -/
theorem Lists.updated {channels : ℕ → Option C} (h : Lists fd channels w) (hc : w.status c = .watched) :
    Lists fd channels (w.updated c call) := by
  intro f d
  rw [h]
  by_cases hd : d = c
  · subst hd
    simp [hc]
  · rw [Watch.updated_status hd]

/-- A new channel is put into the map. -/
theorem Lists.insert {channels : ℕ → Option C} (h : Lists fd channels w)
    (hc : ∀ d, w.status d = .watched → fd d ≠ fd c) :
    Lists fd (Function.update channels (fd c) (some c)) (w.updated c call) := by
  intro f d
  by_cases hd : d = c
  · subst hd
    by_cases hf : f = fd d
    · simp [hf]
    · rw [Function.update_of_ne hf, h]
      simp only [Watch.updated_status_self, and_true]
      exact ⟨And.left, fun heq => absurd heq.symm hf⟩
  · rw [Watch.updated_status hd]
    by_cases hf : f = fd c
    · subst hf
      rw [Function.update_self, Option.some.injEq]
      exact ⟨fun heq => absurd heq.symm hd, fun hwatched => absurd hwatched.1 (hc d hwatched.2)⟩
    · rw [Function.update_of_ne hf, h]

/-- A channel is taken out of the map. -/
theorem Lists.erase {channels : ℕ → Option C} (h : Lists fd channels w) (hw : w.Sound fd)
    (hc : w.status c = .watched) :
    Lists fd (Function.update channels (fd c) none) (w.dropped c) := by
  intro f d
  by_cases hd : d = c
  · subst hd
    by_cases hf : f = fd d
    · simp [hf]
    · rw [Function.update_of_ne hf, h]
      simp [Ne.symm hf]
  · rw [Watch.dropped_status hd]
    by_cases hf : f = fd c
    · subst hf
      rw [Function.update_self]
      refine iff_of_false nofun fun hwatched => ?_
      exact hd (hw.apart d c hwatched.2 hc hwatched.1)
    · rw [Function.update_of_ne hf, h]

/-! ## The list of the kernel -/

/-- The kernel is asked for what the channels are watched for, if it is anything. -/
def Asks (fd : C → ℕ) (interest : ℕ → Option (C × Events)) (w : Watch C) : Prop :=
  ∀ f c e, interest f = some (c, e) ↔
    fd c = f ∧ w.status c = .watched ∧ w.events c = e ∧ e ≠ kNoneEvent

variable {interest : ℕ → Option (C × Events)}

omit [DecidableEq C] in
/-- There is something for a descriptor only if a channel that is watched has it. -/
theorem Asks.eq_none (h : Asks fd interest w) {f : ℕ}
    (hf : ∀ d, fd d = f → w.status d = .watched → w.events d = kNoneEvent) : interest f = none := by
  cases hlookup : interest f with
  | none => rfl
  | some x =>
    obtain ⟨hfd, hd, hevents, hne⟩ := (h _ _ _).1 hlookup
    exact absurd (hevents ▸ hf x.1 hfd hd) hne

/-- The kernel is told what an updated channel is watched for. -/
theorem Asks.put (h : Asks fd interest w) (hw : w.Sound fd) (hpossible : w.Possible fd (.update c call))
    (hsome : call.apply (w.events c) ≠ kNoneEvent) :
    Asks fd (Function.update interest (fd c) (some (c, call.apply (w.events c)))) (w.updated c call) := by
  intro f d e
  by_cases hf : f = fd c
  · subst hf
    rw [Function.update_self, Option.some.injEq, Prod.mk.injEq]
    constructor
    · rintro ⟨rfl, rfl⟩
      exact ⟨rfl, by simp, by simp, hsome⟩
    · rintro ⟨hfd, hd, hevents, -⟩
      by_cases hdc : d = c
      · subst hdc
        rw [Watch.updated_events_self] at hevents
        exact ⟨rfl, hevents⟩
      · rw [Watch.updated_status hdc] at hd
        exact absurd hfd (hw.others hpossible hdc hd)
  · rw [Function.update_of_ne hf, h]
    by_cases hdc : d = c
    · subst hdc
      exact iff_of_false (fun heq => hf heq.1.symm) fun heq => hf heq.1.symm
    · rw [Watch.updated_status hdc, Watch.updated_events hdc]

/-- The kernel is told that a channel is watched for nothing. -/
theorem Asks.del (h : Asks fd interest w) (hw : w.Sound fd) (hpossible : w.Possible fd (.update c call))
    (hnone : call.apply (w.events c) = kNoneEvent) :
    Asks fd (Function.update interest (fd c) none) (w.updated c call) := by
  intro f d e
  by_cases hf : f = fd c
  · subst hf
    rw [Function.update_self]
    refine iff_of_false nofun ?_
    rintro ⟨hfd, hd, hevents, hne⟩
    by_cases hdc : d = c
    · subst hdc
      rw [Watch.updated_events_self, hnone] at hevents
      exact hne hevents.symm
    · rw [Watch.updated_status hdc] at hd
      exact hw.others hpossible hdc hd hfd
  · rw [Function.update_of_ne hf, h]
    by_cases hdc : d = c
    · subst hdc
      exact iff_of_false (fun heq => hf heq.1.symm) fun heq => hf heq.1.symm
    · rw [Watch.updated_status hdc, Watch.updated_events hdc]

/-- Nothing is to be told when a channel is removed that is watched for nothing. -/
theorem Asks.dropped (h : Asks fd interest w) (hnone : w.events c = kNoneEvent) :
    Asks fd interest (w.dropped c) := by
  intro f d e
  rw [h]
  by_cases hdc : d = c
  · subst hdc
    simp only [Watch.dropped_status_self, reduceCtorEq, false_and, and_false, iff_false, not_and]
    rintro - - rfl
    exact not_not.2 hnone
  · rw [Watch.dropped_status hdc, Watch.dropped_events]

/-! ## `EPollPoller` is right -/

namespace EPollPoller

/-- What the poller keeps: its map and the list of the kernel are those of what is watched, and a channel
knows whether it is in that list. -/
structure Implements (fd : C → ℕ) (p : EPollPoller C) (w : Watch C) : Prop where
  sound : w.Sound fd
  events : p.events = w.events
  lists : Lists fd p.channels w
  fresh : ∀ c, w.status c = .fresh → p.index c = kNew
  index : ∀ c, w.status c = .watched →
    p.index c = if w.events c = kNoneEvent then kDeleted else kAdded
  asks : Asks fd p.interest w

omit [DecidableEq C] in
theorem implements_new : Implements fd ({} : EPollPoller C) {} where
  sound := ⟨fun _ _ => rfl, nofun⟩
  events := rfl
  lists _ _ := by simp
  fresh _ _ := rfl
  index := nofun
  asks _ _ _ := by simp

variable {p : EPollPoller C}

/-- The indices behind an update. -/
theorem Implements.index_updated (h : p.Implements fd w) (call : ChannelCall) {k : ℤ}
    (hk : k = if call.apply (w.events c) = kNoneEvent then kDeleted else kAdded) :
    (∀ d, (w.updated c call).status d = .fresh → Function.update p.index c k d = kNew) ∧
      ∀ d, (w.updated c call).status d = .watched → Function.update p.index c k d =
        if (w.updated c call).events d = kNoneEvent then kDeleted else kAdded := by
  constructor
  · intro d hd
    have hne : d ≠ c := by
      rintro rfl
      simp at hd
    rw [Watch.updated_status hne] at hd
    rw [Function.update_of_ne hne, h.fresh d hd]
  · intro d hd
    by_cases hdc : d = c
    · subst hdc
      rw [Function.update_self, Watch.updated_events_self, hk]
    · rw [Watch.updated_status hdc] at hd
      rw [Function.update_of_ne hdc, Watch.updated_events hdc, h.index d hd]

/-- **A channel is updated.** -/
theorem Implements.update (h : p.Implements fd w) (hpossible : w.Possible fd (.update c call)) :
    ∃ p', updateChannel fd { p with events := Function.update p.events c (call.apply (p.events c)) } c =
      some p' ∧ p'.Implements fd (w.updated c call) := by
  have hevents : Function.update p.events c (call.apply (p.events c)) = (w.updated c call).events := by
    rw [h.events]
    rfl
  have hself : (w.updated c call).events c = call.apply (w.events c) := Watch.updated_events_self
  have hsound := h.sound.updated hpossible
  rw [hevents]
  cases hstatus : w.status c with
  | removed => exact absurd hstatus hpossible.2.1
  | fresh =>
    have hsome : call.apply (w.events c) ≠ kNoneEvent :=
      fun hnone => hpossible.2.2 hnone (h.sound.fresh c hstatus)
    have hfree : ∀ d, w.status d = .watched → fd d ≠ fd c := hpossible.1 hstatus
    have hchannels : p.channels (fd c) = none := h.lists.eq_none hfree
    have hinterest : p.interest (fd c) = none := h.asks.eq_none fun d hd hw => absurd hd (hfree d hw)
    obtain ⟨hfresh, hindex⟩ := h.index_updated call (if_neg hsome).symm
    refine ⟨{
      channels := Function.update p.channels (fd c) (some c)
      events := (w.updated c call).events
      index := Function.update p.index c kAdded
      interest := Function.update p.interest (fd c) (some (c, call.apply (w.events c))) }, ?_,
      ⟨hsound, rfl, h.lists.insert hfree, hfresh, hindex, h.asks.put h.sound hpossible hsome⟩⟩
    rw [updateChannel, if_pos (.inl (h.fresh c hstatus)), if_pos (h.fresh c hstatus), if_pos hchannels,
      EPollPoller.update, if_pos hinterest]
    dsimp only
    rw [hself]
  | watched =>
    have hchannels := h.lists.self hstatus
    have hknown := h.index c hstatus
    by_cases hbefore : w.events c = kNoneEvent
    · -- it has been taken from the kernel, and is added again
      have hsome : call.apply (w.events c) ≠ kNoneEvent := fun hnone => hpossible.2.2 hnone hbefore
      rw [if_pos hbefore] at hknown
      have hinterest : p.interest (fd c) = none := by
        refine h.asks.eq_none fun d hd hw => ?_
        rw [h.sound.apart d c hw hstatus hd, hbefore]
      obtain ⟨hfresh, hindex⟩ := h.index_updated call (if_neg hsome).symm
      refine ⟨{
        channels := p.channels
        events := (w.updated c call).events
        index := Function.update p.index c kAdded
        interest := Function.update p.interest (fd c) (some (c, call.apply (w.events c))) }, ?_,
        ⟨hsound, rfl, h.lists.updated hstatus, hfresh, hindex, h.asks.put h.sound hpossible hsome⟩⟩
      rw [updateChannel, if_pos (.inr hknown), if_neg (by rw [hknown]; decide), if_pos hchannels,
        EPollPoller.update, if_pos hinterest]
      dsimp only
      rw [hself]
    · rw [if_neg hbefore] at hknown
      have hinterest : p.interest (fd c) ≠ none := by
        rw [(h.asks (fd c) c (w.events c)).2 ⟨rfl, hstatus, rfl, hbefore⟩]
        nofun
      have hadded : ¬ (p.index c = kNew ∨ p.index c = kDeleted) := by
        rw [hknown]
        decide
      by_cases hnone : call.apply (w.events c) = kNoneEvent
      · obtain ⟨hfresh, hindex⟩ := h.index_updated call (if_pos hnone).symm
        refine ⟨{
          channels := p.channels
          events := (w.updated c call).events
          index := Function.update p.index c kDeleted
          interest := Function.update p.interest (fd c) none }, ?_,
          ⟨hsound, rfl, h.lists.updated hstatus, hfresh, hindex, h.asks.del h.sound hpossible hnone⟩⟩
        rw [updateChannel, if_neg hadded, if_pos ⟨hchannels, hknown⟩, if_pos (hself.trans hnone)]
        rfl
      · obtain ⟨hfresh, hindex⟩ := h.index_updated call (if_neg hnone).symm
        have hsame : Function.update p.index c kAdded = p.index := by
          rw [← hknown, Function.update_eq_self]
        rw [hsame] at hfresh hindex
        refine ⟨{
          channels := p.channels
          events := (w.updated c call).events
          index := p.index
          interest := Function.update p.interest (fd c) (some (c, call.apply (w.events c))) }, ?_,
          ⟨hsound, rfl, h.lists.updated hstatus, hfresh, hindex, h.asks.put h.sound hpossible hnone⟩⟩
        rw [updateChannel, if_neg hadded, if_pos ⟨hchannels, hknown⟩, if_neg (hself.trans_ne hnone),
          EPollPoller.update, if_neg hinterest]
        dsimp only
        rw [hself]

/-- **A channel is removed.** -/
theorem Implements.remove (h : p.Implements fd w) (hpossible : w.Possible fd (.remove c)) :
    ∃ p', removeChannel fd p c = some p' ∧ p'.Implements fd (w.dropped c) := by
  obtain ⟨hstatus, hnone⟩ := hpossible
  have hknown : p.index c = kDeleted := by rw [h.index c hstatus, if_pos hnone]
  have hnot : p.index c ≠ kAdded := by
    rw [hknown]
    decide
  have hne : ∀ d, (w.dropped c).status d ≠ .removed → d ≠ c := by
    rintro d hd rfl
    exact hd Watch.dropped_status_self
  refine ⟨{ p with
    channels := Function.update p.channels (fd c) none
    index := Function.update p.index c kNew }, ?_,
    ⟨h.sound.dropped, h.events, h.lists.erase h.sound hstatus, ?_, ?_, h.asks.dropped hnone⟩⟩
  · rw [removeChannel, if_pos ⟨h.lists.self hstatus, by rw [h.events, hnone], .inr hknown⟩]
    dsimp only
    rw [if_neg hnot]
    rfl
  · intro d hd
    have hdc := hne d (by rw [hd]; nofun)
    rw [Watch.dropped_status hdc] at hd
    exact (Function.update_of_ne hdc ..).trans (h.fresh d hd)
  · intro d hd
    have hdc := hne d (by rw [hd]; nofun)
    rw [Watch.dropped_status hdc] at hd
    exact (Function.update_of_ne hdc ..).trans (h.index d hd)

omit [DecidableEq C] in
/-- What the kernel reports is what is ready, of the descriptors that it comes to. -/
theorem Implements.mem_epollWait (h : p.Implements fd w) {revents : ℕ → ℕ} {looked : List ℕ} {x : C × ℕ} :
    x ∈ p.epollWait revents looked ↔ x ∈ w.ready fd revents ∧ fd x.1 ∈ looked := by
  simp only [epollWait, List.mem_filterMap, Option.bind_eq_some_iff, Option.ite_none_left_eq_some,
    Option.some.injEq]
  constructor
  · rintro ⟨f, hf, ⟨c, e⟩, hasks, hne, rfl⟩
    obtain ⟨rfl, hc, rfl, he⟩ := (h.asks _ _ _).1 hasks
    exact ⟨⟨hc, he, rfl, hne⟩, hf⟩
  · rintro ⟨⟨hc, he, hrevents, hne⟩, hf⟩
    exact ⟨fd x.1, hf, (x.1, w.events x.1), (h.asks _ _ _).2 ⟨rfl, hc, rfl, he⟩, by rwa [hrevents],
      by rw [hrevents]⟩

/-- **The channels that the kernel reports are known**, and none is reported twice. -/
theorem Implements.poll (h : p.Implements fd w) {revents : ℕ → ℕ} {looked : List ℕ}
    (hpossible : w.Possible fd (.poll revents looked)) :
    fillActiveChannels fd p (p.epollWait revents looked) = some (p.epollWait revents looked) ∧
      (p.epollWait revents looked).Nodup := by
  constructor
  · rw [fillActiveChannels, if_pos]
    exact fun x hx => h.lists.self (h.mem_epollWait.1 hx).1.1
  · refine List.Nodup.filterMap ?_ hpossible
    intro f f' x hf hf'
    simp only [Option.mem_def, Option.bind_eq_some_iff, Option.ite_none_left_eq_some,
      Option.some.injEq] at hf hf'
    obtain ⟨⟨c, e⟩, hasks, -, rfl⟩ := hf
    obtain ⟨⟨c', e'⟩, hasks', -, heq⟩ := hf'
    obtain rfl : c' = c := congrArg Prod.fst heq
    exact ((h.asks _ _ _).1 hasks).1.symm.trans ((h.asks _ _ _).1 hasks').1

end EPollPoller

/-! ## `PollPoller` is right -/

namespace PollPoller

/-- What there is in the array for a channel. -/
def entry (fd : C → ℕ) (events : C → Events) (c : C) : PollFd :=
  ⟨if events c = kNoneEvent then -(fd c) - 1 else fd c, events c⟩

/-- What the poller keeps: its map is that of what is watched, and its array has the channels that are
watched, which know their positions. -/
structure Implements (fd : C → ℕ) (p : PollPoller C) (w : Watch C) (order : List C) : Prop where
  sound : w.Sound fd
  events : p.events = w.events
  lists : Lists fd p.channels w
  fresh : ∀ c, w.status c = .fresh → p.index c = -1
  mem : ∀ c, c ∈ order ↔ w.status c = .watched
  placed : Placed order p.index
  pollfds : p.pollfds = order.map (entry fd w.events)

omit [DecidableEq C] in
theorem implements_new : Implements fd ({} : PollPoller C) {} [] where
  sound := ⟨fun _ _ => rfl, nofun⟩
  events := rfl
  lists _ _ := by simp
  fresh _ _ := rfl
  mem _ := by simp
  placed := placed_nil _
  pollfds := rfl

variable {p : PollPoller C} {order : List C} {events : C → Events}

omit [DecidableEq C] in
theorem entry_of_none (h : events c = kNoneEvent) : entry fd events c = ⟨-(fd c) - 1, kNoneEvent⟩ := by
  rw [entry, if_pos h, h]

omit [DecidableEq C] in
theorem entry_of_ne (h : events c ≠ kNoneEvent) : entry fd events c = ⟨fd c, events c⟩ := by
  rw [entry, if_neg h]

theorem entry_updated (hd : d ≠ c) : entry fd (w.updated c call).events d = entry fd w.events d := by
  rw [entry, entry, Watch.updated_events hd]

omit [DecidableEq C] in
/-- Either way the descriptor of the channel is found. -/
theorem toNat_entry (events : C → Events) (c : C) :
    (if (entry fd events c).fd < 0 then -(entry fd events c).fd - 1 else (entry fd events c).fd).toNat =
      fd c := by
  by_cases h : events c = kNoneEvent
  · rw [entry_of_none h]
    dsimp only
    rw [if_pos (by omega)]
    omega
  · rw [entry_of_ne h]
    dsimp only
    rw [if_neg (by omega)]
    omega

omit [DecidableEq C] in
/-- A channel that is watched is at the position that it knows. -/
theorem Implements.position (h : p.Implements fd w order) (hc : w.status c = .watched) :
    0 ≤ p.index c ∧ order[(p.index c).toNat]? = some c ∧
      p.pollfds[(p.index c).toNat]? = some (entry fd w.events c) := by
  obtain ⟨i, hindex, hi⟩ := h.placed.exists_of_mem ((h.mem c).2 hc)
  rw [hindex, Int.toNat_natCast, h.pollfds, List.getElem?_map, hi]
  exact ⟨Int.natCast_nonneg i, rfl, rfl⟩

/-- **A channel is updated.** -/
theorem Implements.update (h : p.Implements fd w order) (hpossible : w.Possible fd (.update c call)) :
    ∃ p' order',
      updateChannel fd { p with events := Function.update p.events c (call.apply (p.events c)) } c = some p' ∧
        p'.Implements fd (w.updated c call) order' := by
  have hevents : Function.update p.events c (call.apply (p.events c)) = (w.updated c call).events := by
    rw [h.events]
    rfl
  have hself : (w.updated c call).events c = call.apply (w.events c) := Watch.updated_events_self
  have hsound := h.sound.updated hpossible
  rw [hevents]
  cases hstatus : w.status c with
  | removed => exact absurd hstatus hpossible.2.1
  | fresh =>
    have hsome : (w.updated c call).events c ≠ kNoneEvent := by
      rw [hself]
      exact fun hnone => hpossible.2.2 hnone (h.sound.fresh c hstatus)
    have hfree : ∀ d, w.status d = .watched → fd d ≠ fd c := hpossible.1 hstatus
    have hnot : c ∉ order := by
      rw [h.mem, hstatus]
      nofun
    have hne : ∀ d ∈ order, d ≠ c := by
      rintro d hd rfl
      exact hnot hd
    refine ⟨{
      channels := Function.update p.channels (fd c) (some c)
      events := (w.updated c call).events
      index := Function.update p.index c p.pollfds.length
      pollfds := p.pollfds ++ [⟨fd c, (w.updated c call).events c⟩] }, order ++ [c], ?_,
      ⟨hsound, rfl, h.lists.insert hfree, ?_, ?_, ?_, ?_⟩⟩
    · rw [updateChannel, if_pos (by rw [h.fresh c hstatus]; decide), if_pos (h.lists.eq_none hfree)]
    · intro d hd
      have hdc : d ≠ c := by
        rintro rfl
        simp at hd
      rw [Watch.updated_status hdc] at hd
      exact (Function.update_of_ne hdc ..).trans (h.fresh d hd)
    · intro d
      rw [List.mem_append, List.mem_singleton, h.mem]
      by_cases hdc : d = c
      · subst hdc
        simp
      · rw [Watch.updated_status hdc, or_iff_left hdc]
    · rw [h.pollfds, List.length_map]
      exact h.placed.push hnot
    · rw [h.pollfds, List.map_append, List.map_singleton, entry_of_ne hsome]
      exact congrArg (· ++ _) (List.map_congr_left fun d hd => (entry_updated (hne d hd)).symm)
  | watched =>
    obtain ⟨hindex, hat, hpfd⟩ := h.position hstatus
    refine ⟨{
      channels := p.channels
      events := (w.updated c call).events
      index := p.index
      pollfds := p.pollfds.set (p.index c).toNat (entry fd (w.updated c call).events c) }, order, ?_,
      ⟨hsound, rfl, h.lists.updated hstatus, ?_, ?_, h.placed, ?_⟩⟩
    · rw [updateChannel, if_neg (Int.not_lt.2 hindex), if_pos (h.lists.self hstatus)]
      dsimp only
      rw [hpfd]
      dsimp only
      rw [if_pos, entry]
      by_cases hnone : w.events c = kNoneEvent
      · rw [entry_of_none hnone]
        exact .inr rfl
      · rw [entry_of_ne hnone]
        exact .inl rfl
    · intro d hd
      have hdc : d ≠ c := by
        rintro rfl
        simp at hd
      rw [Watch.updated_status hdc] at hd
      exact h.fresh d hd
    · intro d
      rw [h.mem]
      by_cases hdc : d = c
      · subst hdc
        simp [hstatus]
      · rw [Watch.updated_status hdc]
    · rw [h.pollfds]
      exact h.placed.map_set hat fun d hd => entry_updated hd

/-- **A channel is removed**, and the one at the end is told its new position. -/
theorem Implements.remove (h : p.Implements fd w order) (hpossible : w.Possible fd (.remove c)) :
    ∃ p' order', removeChannel fd p c = some p' ∧ p'.Implements fd (w.dropped c) order' := by
  obtain ⟨hstatus, hnone⟩ := hpossible
  obtain ⟨hindex, hat, hpfd⟩ := h.position hstatus
  rw [entry_of_none hnone] at hpfd
  have hlists := h.lists.erase h.sound hstatus
  have hfresh : ∀ d, (w.dropped c).status d = .fresh → d ≠ c ∧ w.status d = .fresh := by
    intro d hd
    have hdc : d ≠ c := by
      rintro rfl
      simp at hd
    rw [Watch.dropped_status hdc] at hd
    exact ⟨hdc, hd⟩
  have hmem : ∀ d, d ∈ swapRemove order (p.index c).toNat ↔ (w.dropped c).status d = .watched := by
    intro d
    rw [h.placed.mem_swapRemove hat, h.mem]
    by_cases hdc : d = c
    · subst hdc
      simp
    · rw [Watch.dropped_status hdc, and_iff_left hdc]
  have hpollfds : swapRemove p.pollfds (p.index c).toNat =
      (swapRemove order (p.index c).toNat).map (entry fd (w.dropped c).events) := by
    rw [h.pollfds, map_swapRemove, Watch.dropped_events]
  have hlength : p.pollfds.length = order.length := by rw [h.pollfds, List.length_map]
  obtain ⟨last, hlast⟩ : ∃ last, order.getLast? = some last := by
    cases hl : order.getLast? with
    | none =>
      rw [List.getLast?_eq_none_iff.1 hl] at hat
      cases hat
    | some last => exact ⟨last, rfl⟩
  have hplaced := h.placed.swapRemove hlast (p.index c).toNat
  have hend : order[order.length - 1]? = some last := by rw [← List.getLast?_eq_getElem?, hlast]
  rw [removeChannel, if_pos ⟨h.lists.self hstatus, by rw [h.events, hnone], hindex⟩, hpfd]
  dsimp only
  rw [if_pos ⟨rfl, by rw [h.events, hnone]⟩]
  by_cases hi : (p.index c).toNat + 1 = p.pollfds.length
  · -- it is the last itself, which nobody has to be told
    obtain rfl : c = last := by
      rw [hlength] at hi
      rw [← hi, Nat.add_sub_cancel, hat] at hend
      exact Option.some_inj.1 hend
    rw [Int.toNat_of_nonneg hindex, Function.update_eq_self] at hplaced
    rw [if_pos hi]
    refine ⟨_, swapRemove order (p.index c).toNat, rfl,
      ⟨h.sound.dropped, h.events, hlists, fun d hd => h.fresh d (hfresh d hd).2, hmem, hplaced, ?_⟩⟩
    rw [← hpollfds, swapRemove_of_end hi]
  · have hne : last ≠ c := by
      rintro rfl
      have := h.placed.eq_of_getElem? hat hend
      have := (List.getElem?_eq_some_iff.1 hat).1
      omega
    have hwatched : w.status last = .watched := (h.mem last).1 (List.mem_of_getLast? hlast)
    have hback : p.pollfds.getLast? = some (entry fd w.events last) := by
      rw [h.pollfds, List.getLast?_map, hlast, Option.map_some]
    have hfound := hlists.self (c := last) (by rw [Watch.dropped_status hne, hwatched])
    rw [if_neg hi, hback, Option.bind_some, toNat_entry, hfound]
    rw [Int.toNat_of_nonneg hindex] at hplaced
    refine ⟨_, swapRemove order (p.index c).toNat, rfl,
      ⟨h.sound.dropped, h.events, hlists, ?_, hmem, hplaced, hpollfds⟩⟩
    intro d hd
    have hdlast : d ≠ last := by
      rintro rfl
      rw [(hfresh d hd).2] at hwatched
      cases hwatched
    exact (Function.update_of_ne hdlast ..).trans (h.fresh d (hfresh d hd).2)

omit [DecidableEq C] in
/-- There is something for an entry of the array when its channel is watched for anything and is ready. -/
theorem entry_ready (fd : C → ℕ) (events : C → Events) (revents : ℕ → ℕ) (c : C) :
    0 ≤ (entry fd events c).fd ∧ revents (entry fd events c).fd.toNat ≠ 0 ↔
      events c ≠ kNoneEvent ∧ revents (fd c) ≠ 0 := by
  by_cases h : events c = kNoneEvent
  · rw [entry_of_none h]
    exact iff_of_false (fun hready => by have := hready.1; dsimp only at this; omega)
      fun hready => hready.1 h
  · rw [entry_of_ne h]
    dsimp only
    rw [Int.toNat_natCast]
    simp [h]

omit [DecidableEq C] in
/-- An entry without anything is passed. -/
theorem fillFrom_pass {revents : ℕ → ℕ} {pfd : PollFd} (h : ¬ (0 ≤ pfd.fd ∧ revents pfd.fd.toNat ≠ 0))
    (n : ℕ) (pollfds : List PollFd) :
    fillFrom fd p revents n (pfd :: pollfds) = fillFrom fd p revents n pollfds := by
  cases n with
  | zero => rw [fillFrom, fillFrom]
  | succ n => rw [fillFrom, if_neg h]

omit [DecidableEq C] in
/-- The array is gone through up to the last entry for which there is something. -/
theorem fillFrom_entries (events : C → Events) (revents : ℕ → ℕ) {order : List C}
    (h : ∀ c ∈ order, p.channels (fd c) = some c) :
    fillFrom fd p revents ((order.map (entry fd events)).countP fun pfd =>
        0 ≤ pfd.fd ∧ revents pfd.fd.toNat ≠ 0) (order.map (entry fd events)) =
      some ((order.filter fun c => events c ≠ kNoneEvent ∧ revents (fd c) ≠ 0).map fun c =>
        (c, revents (fd c))) := by
  induction order with
  | nil => rfl
  | cons c order ih =>
    obtain ⟨hc, hrest⟩ := List.forall_mem_cons.1 h
    have ih := ih hrest
    rw [List.map_cons]
    by_cases hready : events c ≠ kNoneEvent ∧ revents (fd c) ≠ 0
    · have hentry := (entry_ready fd events revents c).2 hready
      rw [List.countP_cons_of_pos (by simpa using hentry), fillFrom, if_pos hentry, entry_of_ne hready.1]
      dsimp only
      rw [Int.toNat_natCast, hc, Option.bind_some, if_pos rfl, ih, Option.map_some,
        List.filter_cons_of_pos (by simpa using hready), List.map_cons]
    · have hentry := mt (entry_ready fd events revents c).1 hready
      rw [List.countP_cons_of_neg (by simpa using hentry), fillFrom_pass hentry, ih,
        List.filter_cons_of_neg (by simpa using hready)]

omit [DecidableEq C] in
/-- **What is ready is reported**, each channel once. -/
theorem Implements.poll (h : p.Implements fd w order) (revents : ℕ → ℕ) :
    ∃ active, fillActiveChannels fd p revents = some active ∧ active.Nodup ∧
      ∀ x, x ∈ active ↔ x ∈ w.ready fd revents := by
  refine ⟨(order.filter fun c => w.events c ≠ kNoneEvent ∧ revents (fd c) ≠ 0).map fun c =>
    (c, revents (fd c)), ?_, ?_, fun x => ?_⟩
  · rw [fillActiveChannels, h.pollfds]
    exact fillFrom_entries w.events revents fun c hc => h.lists.self ((h.mem c).1 hc)
  · exact (h.placed.nodup.filter _).map fun c d hcd => congrArg Prod.fst hcd
  · simp only [List.mem_map, List.mem_filter, decide_eq_true_eq, h.mem]
    constructor
    · rintro ⟨c, ⟨hc, he, hne⟩, rfl⟩
      exact ⟨hc, he, rfl, hne⟩
    · rintro ⟨hc, he, hrevents, hne⟩
      exact ⟨x.1, ⟨hc, he, by rwa [hrevents]⟩, by rw [hrevents]⟩

end PollPoller

/-! ## Runs -/

/-- A poll reports what it should, and each channel once. -/
def Reports (should : Set (C × ℕ)) (active : List (C × ℕ)) : Prop :=
  active.Nodup ∧ ∀ x, x ∈ active ↔ x ∈ should

omit [DecidableEq C] in
theorem reports_empty : Reports (∅ : Set (C × ℕ)) [] := 
  ⟨List.nodup_nil, fun _ => iff_of_false List.not_mem_nil id⟩

variable {a : PollerInput C} {out : Set (C × ℕ) × Set (C × ℕ)}

/-- **A step of `EPollPoller`.** -/
theorem EPollPoller.Implements.step {p : EPollPoller C} (h : p.Implements fd w) (ha : w.Possible fd a)
    (hstep : w.step fd a = some (out, w')) :
    ∃ active p', EPollPoller.step fd p a = some (active, p') ∧ Reports out.2 active ∧
      p'.Implements fd w' := by
  cases a with
  | update c call =>
    cases hstep
    obtain ⟨p', hp', hI⟩ := h.update ha
    exact ⟨[], p', by rw [EPollPoller.step, hp']; rfl, reports_empty, hI⟩
  | remove c =>
    cases hstep
    obtain ⟨p', hp', hI⟩ := h.remove ha
    exact ⟨[], p', by rw [EPollPoller.step, hp']; rfl, reports_empty, hI⟩
  | poll revents looked =>
    cases hstep
    obtain ⟨hknown, hnodup⟩ := h.poll ha
    exact ⟨_, p, by rw [EPollPoller.step, hknown]; rfl, ⟨hnodup, fun x => h.mem_epollWait⟩, h⟩

/-- **A step of `PollPoller`.** -/
theorem PollPoller.Implements.step {p : PollPoller C} {order : List C} (h : p.Implements fd w order)
    (ha : w.Possible fd a) (hstep : w.step fd a = some (out, w')) :
    ∃ active p', PollPoller.step fd p a = some (active, p') ∧ Reports out.1 active ∧
      ∃ order', p'.Implements fd w' order' := by
  cases a with
  | update c call =>
    cases hstep
    obtain ⟨p', order', hp', hI⟩ := h.update ha
    exact ⟨[], p', by rw [PollPoller.step, hp']; rfl, reports_empty, order', hI⟩
  | remove c =>
    cases hstep
    obtain ⟨p', order', hp', hI⟩ := h.remove ha
    exact ⟨[], p', by rw [PollPoller.step, hp']; rfl, reports_empty, order', hI⟩
  | poll revents looked =>
    cases hstep
    obtain ⟨active, hactive, hreports⟩ := h.poll revents
    exact ⟨active, p, by rw [PollPoller.step, hactive]; rfl, hreports, order, h⟩

omit [DecidableEq C] in
/-- The array asks for what the channels are watched for. -/
theorem PollPoller.Implements.mem_pollfds {p : PollPoller C} {order : List C} (h : p.Implements fd w order)
    {f : ℕ} {e : Events} :
    (⟨f, e⟩ : PollFd) ∈ p.pollfds ↔
      ∃ c, fd c = f ∧ w.status c = .watched ∧ w.events c = e ∧ e ≠ kNoneEvent := by
  rw [h.pollfds, List.mem_map]
  constructor
  · rintro ⟨c, hc, heq⟩
    by_cases hnone : w.events c = kNoneEvent
    · rw [entry_of_none hnone, PollFd.mk.injEq] at heq
      have := heq.1
      omega
    · rw [entry_of_ne hnone, PollFd.mk.injEq] at heq
      exact ⟨c, Int.ofNat_inj.1 heq.1, (h.mem c).1 hc, heq.2, heq.2 ▸ hnone⟩
  · rintro ⟨c, rfl, hc, rfl, hne⟩
    exact ⟨c, (h.mem c).2 hc, entry_of_ne hne⟩

/-- A channel that was never watched is disabled, and the kernel is asked for it with no events; so it can
be removed. -/
theorem EPollPoller.Implements.removes_fresh {q : EPollPoller C} (h : q.Implements fd w)
    (hc : w.status c = .fresh) (hfree : ∀ d, w.status d = .watched → fd d ≠ fd c) :
    (runs (EPollPoller.step fd) q [.update c .disableAll, .remove c]).isSome := by
  have hchannels : q.channels (fd c) = none := h.lists.eq_none hfree
  have hinterest : q.interest (fd c) = none := h.asks.eq_none fun d hd hw => absurd hd (hfree d hw)
  have hindex := h.fresh c hc
  simp [runs, EPollPoller.step, EPollPoller.updateChannel, EPollPoller.removeChannel, EPollPoller.update,
    hchannels, hinterest, hindex, ChannelCall.apply]

/-- The array then has its descriptor as it is, and not as that of a channel that is ignored. -/
theorem PollPoller.Implements.fails_fresh {p : PollPoller C} {order : List C} (h : p.Implements fd w order)
    (hc : w.status c = .fresh) (hfree : ∀ d, w.status d = .watched → fd d ≠ fd c) :
    runs (PollPoller.step fd) p [.update c .disableAll, .remove c] = none := by
  have hchannels : p.channels (fd c) = none := h.lists.eq_none hfree
  have hindex : p.index c < 0 := by
    rw [h.fresh c hc]
    decide
  have hfd : (fd c : ℤ) ≠ -(fd c) - 1 := by omega
  simp [runs, PollPoller.step, PollPoller.updateChannel, PollPoller.removeChannel, hchannels, hindex, hfd,
    ChannelCall.apply]

theorem Watch.runs_isSome (fd : C → ℕ) (inputs : List (PollerInput C)) (w : Watch C) :
    (runs (Watch.step fd) w inputs).isSome := by
  induction inputs generalizing w with
  | nil => rfl
  | cons a inputs ih =>
    obtain ⟨⟨out, w'⟩, hstep⟩ : ∃ x, w.step fd a = some x := by cases a <;> exact ⟨_, rfl⟩
    rw [runs, hstep, Option.bind_some, Option.isSome_map]
    exact ih w'

/-- Both pollers follow every run that keeps to the contract. -/
theorem runs_implement {inputs : List (PollerInput C)} {outs : List (Set (C × ℕ) × Set (C × ℕ))}
    (hinputs : Along (fun w a => (Watch.step fd w a).map Prod.snd) (Watch.Possible fd) {} inputs)
    (hrun : runs (Watch.step fd) {} inputs = some (outs, w)) :
    (∃ polled p order, runs (PollPoller.step fd) {} inputs = some (polled, p) ∧
      List.Forall₂ (fun out active => Reports out.1 active) outs polled ∧ p.Implements fd w order) ∧
    ∃ epolled q, runs (EPollPoller.step fd) {} inputs = some (epolled, q) ∧
      List.Forall₂ (fun out active => Reports out.2 active) outs epolled ∧ q.Implements fd w := by
  have hpoll : ∀ w (p : PollPoller C) a out w', (∃ order, p.Implements fd w order) → w.Possible fd a →
      w.step fd a = some (out, w') →
        ∃ active p', p.step fd a = some (active, p') ∧ Reports out.1 active ∧
          ∃ order, p'.Implements fd w' order :=
    fun _ _ _ _ _ ⟨_, h⟩ ha hstep => h.step ha hstep
  have hepoll : ∀ w (q : EPollPoller C) a out w', q.Implements fd w → w.Possible fd a →
      w.step fd a = some (out, w') →
        ∃ active q', q.step fd a = some (active, q') ∧ Reports out.2 active ∧ q'.Implements fd w' :=
    fun _ _ _ _ _ h ha hstep => h.step ha hstep
  obtain ⟨polled, p, hp, hpolled, order, hP⟩ :=
    runs_follows _ hpoll ⟨[], PollPoller.implements_new⟩ hinputs hrun
  exact ⟨⟨polled, p, order, hp, hpolled, hP⟩, runs_follows _ hepoll EPollPoller.implements_new hinputs hrun⟩

/-- **The pollers agree.** In every run that keeps to the contract of the channels, no assertion of either
poller fails and the kernel never refuses what it is told. Each poll of `PollPoller` reports the channels
that are ready, and each of `EPollPoller` those that `epoll_wait` comes to, none twice. At the end both ask
the kernel for the same. -/
theorem pollers_agree {inputs : List (PollerInput C)}
    (hinputs : Along (fun w a => (Watch.step fd w a).map Prod.snd) (Watch.Possible fd) {} inputs) :
    ∃ outs w polled p epolled q, runs (Watch.step fd) {} inputs = some (outs, w) ∧
      runs (PollPoller.step fd) {} inputs = some (polled, p) ∧
      runs (EPollPoller.step fd) {} inputs = some (epolled, q) ∧
      List.Forall₂ (fun out active => Reports out.1 active) outs polled ∧
      List.Forall₂ (fun out active => Reports out.2 active) outs epolled ∧
      Asks fd q.interest w ∧
      ∀ (f : ℕ) e, (⟨f, e⟩ : PollFd) ∈ p.pollfds ↔ ∃ c, q.interest f = some (c, e) := by
  obtain ⟨⟨outs, w⟩, hrun⟩ := Option.isSome_iff_exists.1 (Watch.runs_isSome fd inputs {})
  obtain ⟨⟨polled, p, order, hp, hpolled, hP⟩, epolled, q, hq, hepolled, hQ⟩ := runs_implement hinputs hrun
  refine ⟨outs, w, polled, p, epolled, q, hrun, hp, hq, hpolled, hepolled, hQ.asks, fun f e => ?_⟩
  rw [hP.mem_pollfds]
  exact exists_congr fun c => (hQ.asks f c e).symm

/-- Two channels, of the descriptors 5 and 7. -/
def twoChannels (c : Bool) : ℕ := if c then 7 else 5

/-- Both are watched, and both are ready; one is watched for writing as well; then the first is removed. -/
def watchings : List (PollerInput Bool) :=
  [.update false .enableReading, .update true .enableReading, .poll (fun _ => 1) [7, 5],
    .update true .enableWriting, .update false .disableAll, .poll (fun _ => 1) [5, 7], .remove false,
    .update true .disableWriting, .poll (fun f => if f = 7 then 1 else 0) [7]]

theorem pollers_agree_watchings :
    Along (fun w a => (Watch.step twoChannels w a).map Prod.snd) (Watch.Possible twoChannels) {} watchings ∧
      ∃ outs w polled p epolled q, runs (Watch.step twoChannels) {} watchings = some (outs, w) ∧
        runs (PollPoller.step twoChannels) {} watchings = some (polled, p) ∧
        runs (EPollPoller.step twoChannels) {} watchings = some (epolled, q) ∧
        List.Forall₂ (fun out active => Reports out.1 active) outs polled ∧
        List.Forall₂ (fun out active => Reports out.2 active) outs epolled ∧
        Asks twoChannels q.interest w ∧
        ∀ (f : ℕ) e, (⟨f, e⟩ : PollFd) ∈ p.pollfds ↔ ∃ c, q.interest f = some (c, e) := by
  have h : Along (fun w a => (Watch.step twoChannels w a).map Prod.snd) (Watch.Possible twoChannels) {}
      watchings := by
    simp [watchings, Along, Watch.step, Watch.Possible, Watch.updated, Watch.dropped, ChannelCall.apply,
      kNoneEvent, twoChannels]
  exact ⟨h, pollers_agree h⟩

example : ((runs (PollPoller.step twoChannels) {} watchings).map Prod.fst) =
    some [[], [], [(false, 1), (true, 1)], [], [], [(true, 1)], [], [], [(true, 1)]] := by
  decide

example : ((runs (EPollPoller.step twoChannels) {} watchings).map Prod.fst) =
    some [[], [], [(true, 1), (false, 1)], [], [], [(true, 1)], [], [], [(true, 1)]] := by
  decide

/-- **Where the pollers differ**: the contract is broken when a channel that was never watched is disabled and
removed, as the destructor of an `Acceptor` that never listened does. Behind every run, `EPollPoller` takes
that, and an assertion of `PollPoller` fails. -/
theorem pollers_differ {inputs : List (PollerInput C)} {outs : List (Set (C × ℕ) × Set (C × ℕ))}
    (hinputs : Along (fun w a => (Watch.step fd w a).map Prod.snd) (Watch.Possible fd) {} inputs)
    (hrun : runs (Watch.step fd) {} inputs = some (outs, w)) (hc : w.status c = .fresh)
    (hfree : ∀ d, w.status d = .watched → fd d ≠ fd c) :
    (∃ polled p, runs (PollPoller.step fd) {} inputs = some (polled, p) ∧
      runs (PollPoller.step fd) p [.update c .disableAll, .remove c] = none) ∧
    ∃ epolled q, runs (EPollPoller.step fd) {} inputs = some (epolled, q) ∧
      (runs (EPollPoller.step fd) q [.update c .disableAll, .remove c]).isSome := by
  obtain ⟨⟨polled, p, order, hp, -, hP⟩, epolled, q, hq, -, hQ⟩ := runs_implement hinputs hrun
  exact ⟨⟨polled, p, hp, hP.fails_fresh hc hfree⟩, epolled, q, hq, hQ.removes_fresh hc hfree⟩

/-- Only the wakeup channel of the loop has been watched. -/
theorem pollers_differ_wakeup :
    (∃ polled p, runs (PollPoller.step twoChannels) {} [.update false .enableReading] = some (polled, p) ∧
      runs (PollPoller.step twoChannels) p [.update true .disableAll, .remove true] = none) ∧
    ∃ epolled q, runs (EPollPoller.step twoChannels) {} [.update false .enableReading] = some (epolled, q) ∧
      (runs (EPollPoller.step twoChannels) q [.update true .disableAll, .remove true]).isSome := by
  have hinputs : Along (fun w a => (Watch.step twoChannels w a).map Prod.snd) (Watch.Possible twoChannels) {}
      [.update false .enableReading] := by
    simp [Along, Watch.Possible, ChannelCall.apply, kNoneEvent]
  have hrun : runs (Watch.step twoChannels) {} [.update false .enableReading] =
      some ([(∅, ∅)], Watch.updated {} false .enableReading) := rfl
  exact pollers_differ hinputs hrun rfl (by decide)

end Net

end GraduationServer
