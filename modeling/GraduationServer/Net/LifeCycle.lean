import GraduationServer.Foundations.Runs
import GraduationServer.Net.Sending

/-!
# The life of a connection

What the system reports and the loop runs is a possible input (`TcpConnection.Possible`): a poll reports
only on a channel that is in the poller, a hang-up comes with readable bytes when there is anything to
read, and a functor runs behind the events of a poll. Then no assertion of a connection fails, whatever its
user and other threads call, and its callbacks are those of one life: up, messages, down, close
(`TcpConnection.one_life`).

What arrives is in the input buffer until the user takes it (`TcpConnection.received_exact`).
-/

namespace GraduationServer

namespace Net

/-! ## What is possible -/

/-- A write of no more bytes than there are. -/
def WriteResult.Fits (n : ℕ) : WriteResult → Prop
  | wrote k => k ≤ n
  | _ => True

/-- What is reported of a socket: the channel does not ask for `POLLRDHUP`, and a hang-up is reported as
readable when there is urgent data. -/
structure Revents.Reported (r : Revents) : Prop where
  rdHup : r.pollRdHup = false
  hup : r.pollHup → r.pollPri → r.pollIn

namespace TcpConnection

variable {c c' : TcpConnection} {es : List Effect} {message : Bytes} {result : WriteResult}

/-- What the system, the loop and the user may do: `TcpServer` establishes a connection once, and the user
takes no more bytes than there are. -/
def Possible (c : TcpConnection) : ConnInput → Prop
  | .connectEstablished => c.state = .kConnecting
  | .send message result => result.Fits message.length
  | .take len => len ≤ c.inputBuffer.content.length
  | .poll revents => c.isReading ∧ c.phases = [] ∧ revents.Reported
  | .handle _ result => result.Fits c.outputBuffer.content.length
  | .run result => c.phases = [] ∧
      ∀ message, c.pending.head? = some (.sendInLoop message) → result.Fits message.length
  | _ => True

/-! ## Lives -/

/-- The callbacks of the user and of the server. -/
def callbacks (effects : List Effect) : List Effect :=
  effects.filter fun
    | .connection _ | .message _ | .close => true
    | _ => false

/-- The callbacks of a connection up to a state. -/
def Lived : StateE → List Effect → Prop
  | .kConnecting, l => l = []
  | .kConnected, l | .kDisconnecting, l => ∃ contents : List Bytes,
      l = .connection true :: contents.map .message
  | .kDisconnected, l => ∃ contents : List Bytes,
      l = .connection true :: contents.map .message ++ [.connection false, .close]

/-- The callbacks that may close a connection. -/
def closings (phases : List Phase) : ℕ := phases.countP fun p => p = .close ∨ p = .read

/-- No event closes an open connection twice, and none is left that closes it again. What is kept to
destroy a connection is kept for one that is down. -/
structure Lively (c : TcpConnection) : Prop extends WellFormed c where
  up : c.isOpen → closings c.phases ≤ 1
  down : ¬ c.isOpen → closings c.phases = 0
  destroyed : .connectDestroyed ∈ c.pending → c.state = .kDisconnected

/-- A step that goes on with a life. -/
structure Goes (c : TcpConnection) (es : List Effect) (c' : TcpConnection) : Prop where
  lively : c'.Lively
  lived : ∀ l, Lived c.state l → Lived c'.state (l ++ callbacks es)

theorem lively_new : Lively {} where
  toWellFormed := wellFormed_new
  up h := by simp [isOpen] at h
  down _ := rfl
  destroyed h := by simp at h

theorem callbacks_append (es es' : List Effect) :
    callbacks (es ++ es') = callbacks es ++ callbacks es' :=
  List.filter_append _ _

/-- A call that keeps the state and calls nobody. -/
theorem Lively.goes_of_same (hc : c.Lively) (hwf : c'.WellFormed) (hsame : c.Same c')
    (hes : callbacks es = []) (hpending : .connectDestroyed ∈ c'.pending → .connectDestroyed ∈ c.pending) :
    c.Goes es c' := by
  have hopen : c'.isOpen = c.isOpen := by rw [isOpen, isOpen, hsame.state]
  refine ⟨⟨hwf, ?_, ?_, ?_⟩, ?_⟩
  · rw [hopen, hsame.phases]
    exact hc.up
  · rw [hopen, hsame.phases]
    exact hc.down
  · rw [hsame.state]
    exact fun h => hc.destroyed (hpending h)
  · intro l hl
    rwa [hsame.state, hes, List.append_nil]

theorem connectDestroyed_of_notices
    (h : ∃ fs, (∀ f ∈ fs, Functor.IsNotice f) ∧ c'.pending = c.pending ++ fs)
    (hmem : .connectDestroyed ∈ c'.pending) : .connectDestroyed ∈ c.pending := by
  obtain ⟨fs, hfs, hpending⟩ := h
  exact (List.mem_append.1 (hpending ▸ hmem)).elim id fun hnew => (hfs _ hnew).elim

theorem callbacks_of_writes
    (h : ∀ e ∈ es, (∃ d, e = .written d) ∨ e = .shutdownWrite) : callbacks es = [] := by
  rw [callbacks, List.filter_eq_nil_iff]
  intro e he
  rcases h e he with ⟨d, rfl⟩ | rfl <;> simp

theorem callbacks_shutdownInLoop : callbacks c.shutdownInLoop = [] := by
  unfold shutdownInLoop
  split <;> rfl

/-- An open connection is closed when no other callback of the event closes it too. -/
theorem goes_handleClose (c : TcpConnection) (hopen : c.isOpen)
    (hphases : closings c.phases = 0) :
    ∃ es c', c.handleClose = some (es, c') ∧ c.Goes es c' := by
  refine ⟨_, _, handleClose_eq_some.2 ⟨hopen, rfl, rfl⟩, ⟨?_, ?_, fun _ => hphases, fun _ => rfl⟩, ?_⟩
  · exact wellFormed_handleClose (handleClose_eq_some.2 ⟨hopen, rfl, rfl⟩)
  · intro h
    simp [isOpen] at h
  · intro l hl
    rcases isOpen_iff.1 hopen with hstate | hstate <;>
    · rw [hstate] at hl
      obtain ⟨contents, rfl⟩ := hl
      exact ⟨contents, rfl⟩

/-- A message of any length is sent. -/
theorem isSome_sendInLoop (h : result.Fits message.length) :
    (c.sendInLoop message result).isSome := by
  unfold sendInLoop
  split
  · rfl
  · split
    · cases result with
      | wrote n => simp [show n ≤ message.length from h]
      | _ => rfl
    · rfl

theorem Lively.goes_sendInLoop (hc : c.Lively) (hstate : c.state ≠ .kConnecting)
    (h : result.Fits message.length) :
    ∃ es c', c.sendInLoop message result = some (es, c') ∧ c.Goes es c' := by
  obtain ⟨⟨es, c'⟩, hsend⟩ := Option.isSome_iff_exists.1 (isSome_sendInLoop (c := c) h)
  have hsends := sends_sendInLoop hsend
  exact ⟨es, c', hsend, hc.goes_of_same (wellFormed_sendInLoop hc.toWellFormed hstate hsend) hsends.same
    (callbacks_of_writes fun e he => .inl (hsends.writes e he))
    (connectDestroyed_of_notices hsends.notices)⟩

theorem isSome_handleWrite (h : result.Fits c.outputBuffer.content.length) :
    (c.handleWrite result).isSome := by
  unfold handleWrite
  split
  · cases result with
    | wrote n =>
      cases n with
      | zero => rfl
      | succ n =>
        rw [Option.isSome_map]
        exact Buffer.isSome_retrieve h
    | _ => rfl
  · rfl

theorem Lively.goes_handleWrite (hc : c.Lively)
    (h : result.Fits c.outputBuffer.content.length) :
    ∃ es c', c.handleWrite result = some (es, c') ∧ c.Goes es c' := by
  obtain ⟨⟨es, c'⟩, hwrite⟩ := Option.isSome_iff_exists.1 (isSome_handleWrite h)
  have hflushes := flushes_handleWrite hwrite
  exact ⟨es, c', hwrite, hc.goes_of_same (wellFormed_handleWrite hc.toWellFormed hwrite) hflushes.same
    (callbacks_of_writes fun e he => (hflushes.writes e he).imp_right And.left)
    (connectDestroyed_of_notices hflushes.notices)⟩

/-- A callback of the channel, with the other callbacks of its event behind it. -/
theorem Lively.goes_handle {phase : Phase} {phases : List Phase} {arrived : Option Bytes}
    (hc : c.Lively) (hphases : c.phases = phase :: phases)
    (h : result.Fits c.outputBuffer.content.length) :
    ∃ es c', handle { c with phases } phase arrived result = some (es, c') ∧ c.Goes es c' := by
  have hwf : WellFormed { c with phases } := ⟨hc.closed, hc.reading, hc.writing, hc.connecting⟩
  have hcount : closings c.phases =
      closings phases + if phase = .close ∨ phase = .read then 1 else 0 := by
    rw [hphases, closings, List.countP_cons]
    simp [closings]
  have hrest : Lively { c with phases } :=
    ⟨hwf, fun hopen => le_trans (hcount ▸ Nat.le_add_right _ _) (hc.up hopen),
      fun hclosed => by have := hc.down hclosed; dsimp only; omega, hc.destroyed⟩
  have hcloses : phase = .close ∨ phase = .read → c.isOpen ∧ closings phases = 0 := by
    intro hphase
    rw [if_pos hphase] at hcount
    have hopen : c.isOpen := by
      by_contra hclosed
      have := hc.down hclosed
      omega
    have := hc.up hopen
    exact ⟨hopen, by omega⟩
  have hgoes : ∀ {es d}, Goes { c with phases } es d → c.Goes es d := fun hd => ⟨hd.lively, hd.lived⟩
  cases phase with
  | close =>
    obtain ⟨hopen, hzero⟩ := hcloses (.inl rfl)
    obtain ⟨es, c', hclose, hd⟩ := goes_handleClose { c with phases } hopen hzero
    exact ⟨es, c', hclose, hgoes hd⟩
  | error => exact ⟨[], _, rfl, hrest, fun l hl => by simpa [callbacks] using hl⟩
  | read =>
    obtain ⟨hopen, hzero⟩ := hcloses (.inr rfl)
    cases arrived with
    | none => exact ⟨[], _, rfl, hrest, fun l hl => by simpa [callbacks] using hl⟩
    | some arrived =>
      cases arrived with
      | nil =>
        obtain ⟨es, c', hclose, hd⟩ := goes_handleClose { c with phases } hopen hzero
        exact ⟨es, c', hclose, hgoes hd⟩
      | cons b bs =>
        refine ⟨_, _, rfl, ⟨⟨hwf.closed, hwf.reading, hwf.writing, hwf.connecting⟩, hrest.up, hrest.down,
          hrest.destroyed⟩, fun l hl => ?_⟩
        rcases isOpen_iff.1 hopen with hstate | hstate <;>
        · rw [hstate] at hl
          obtain ⟨contents, rfl⟩ := hl
          simp only [hstate, Lived]
          exact ⟨contents ++ [(c.inputBuffer.readFd (b :: bs)).content], by simp [callbacks]⟩
  | write =>
    obtain ⟨es, c', hwrite, hd⟩ := hrest.goes_handleWrite h
    exact ⟨es, c', hwrite, hgoes hd⟩

/-- A functor that the loop has kept, when no event is being handled. -/
theorem Lively.goes_run {f : Functor} {pending : List Functor} (hc : c.Lively)
    (hpending : c.pending = f :: pending) (hphases : c.phases = [])
    (h : ∀ message, f = .sendInLoop message → result.Fits message.length) :
    ∃ es c', run { c with pending } f result = some (es, c') ∧ c.Goes es c' := by
  have hstate : c.state ≠ .kConnecting := by
    intro hconnecting
    have hnil := (hc.connecting hconnecting).1
    rw [hpending] at hnil
    cases hnil
  have hwf : WellFormed { c with pending } :=
    ⟨hc.closed, hc.reading, hc.writing, fun hconnecting => absurd hconnecting hstate⟩
  have hrest : Lively { c with pending } :=
    ⟨hwf, hc.up, hc.down, fun hmem => hc.destroyed (hpending ▸ List.mem_cons_of_mem _ hmem)⟩
  have hgoes : ∀ {es d}, Goes { c with pending } es d → c.Goes es d := fun hd => ⟨hd.lively, hd.lived⟩
  have hnothing : ∀ {es : List Effect}, callbacks es = [] → c.Goes es { c with pending } :=
    fun hes => ⟨hrest, fun l hl => by rwa [hes, List.append_nil]⟩
  cases f with
  | sendInLoop message =>
    obtain ⟨es, c', hsend, hd⟩ := hrest.goes_sendInLoop hstate (h message rfl)
    exact ⟨es, c', hsend, hgoes hd⟩
  | shutdownInLoop => exact ⟨_, _, rfl, hnothing callbacks_shutdownInLoop⟩
  | forceCloseInLoop =>
    by_cases hopen : c.isOpen
    · have hzero : closings c.phases = 0 := by rw [hphases]; rfl
      obtain ⟨es, c', hclose, hd⟩ := goes_handleClose { c with pending } hopen hzero
      exact ⟨es, c', (if_pos hopen).trans hclose, hgoes hd⟩
    · exact ⟨[], _, if_neg hopen, hnothing rfl⟩
  | connectDestroyed =>
    have hdown : c.state = .kDisconnected := hc.destroyed (hpending ▸ List.mem_cons_self)
    have hclosed := hc.closed (by simp [isOpen, hdown])
    refine ⟨[], { c with pending, addedToLoop := false }, ?_, ⟨⟨hwf.closed, hwf.reading, hwf.writing,
      hwf.connecting⟩, hrest.up, hrest.down, hrest.destroyed⟩,
      fun l hl => by simpa [callbacks] using hl⟩
    simp [run, connectDestroyed, hdown, hclosed]
  | writeCompleteCallback | highWaterMarkCallback len => exact ⟨_, _, rfl, hnothing rfl⟩

/-- An open connection that the user begins to close. -/
theorem Lively.goes_disconnecting (hc : c.Lively) (hopen : c.isOpen) (hes : callbacks es = [])
    (fs : List Functor) (hfs : .connectDestroyed ∉ fs) :
    c.Goes es { c with state := .kDisconnecting, pending := c.pending ++ fs } := by
  refine ⟨⟨hc.toWellFormed.disconnecting hopen fs, fun _ => hc.up hopen,
    fun h => by simp [isOpen] at h, fun hmem => ?_⟩, fun l hl => ?_⟩
  · have hdown := hc.destroyed ((List.mem_append.1 hmem).resolve_right hfs)
    rw [isOpen_iff, hdown] at hopen
    simp at hopen
  · rw [hes, List.append_nil]
    rcases isOpen_iff.1 hopen with hstate | hstate <;>
    · rw [hstate] at hl
      exact hl

/-- **A possible step goes on with the life of a connection**, and no assertion fails. -/
theorem Lively.goes_step {i : ConnInput} (hc : c.Lively) (h : c.Possible i) :
    ∃ es c', c.step i = some (es, c') ∧ c.Goes es c' := by
  have hnothing : c.Goes [] c := ⟨hc, fun l hl => by simpa [callbacks] using hl⟩
  have hconnected : c.state = .kConnected → c.isOpen := fun h => isOpen_iff.2 (.inl h)
  cases i with
  | connectEstablished =>
    have hstate : c.state = .kConnecting := h
    have hstep : c.step .connectEstablished = some ([.connection true], { c with
        state := .kConnected
        isReading := true
        addedToLoop := true }) := if_pos hstate
    have hzero := hc.down (by simp [isOpen, hstate])
    refine ⟨_, _, hstep, ⟨wellFormed_step hc.toWellFormed hstep, fun _ => by simp [hzero],
      fun _ => hzero, fun hmem => by simp [(hc.connecting hstate).1] at hmem⟩, fun l hl => ?_⟩
    rw [hstate] at hl
    obtain rfl : l = [] := hl
    exact ⟨[], rfl⟩
  | send message result =>
    by_cases hstate : c.state = .kConnected
    · obtain ⟨es, c', hsend, hgoes⟩ := hc.goes_sendInLoop (by simp [hstate]) h
      exact ⟨es, c', (if_pos hstate).trans hsend, hgoes⟩
    · exact ⟨[], c, if_neg hstate, hnothing⟩
  | beginSend message =>
    refine ⟨_, _, rfl, ?_⟩
    split
    · next hstate =>
      exact ⟨⟨⟨hc.closed, hc.reading, hc.writing, fun h => absurd (hstate.symm.trans h) (by simp)⟩, hc.up,
        hc.down, hc.destroyed⟩, hnothing.lived⟩
    · exact hnothing
  | endSend j =>
    cases hget : c.sending[j]? with
    | none => exact ⟨[], c, by simp [step, hget], hnothing⟩
    | some message =>
      have hstep : c.step (.endSend j) = some ([], { c with
          pending := c.pending ++ [.sendInLoop message]
          sending := c.sending.eraseIdx j }) := by simp [step, hget, queueInLoop]
      refine ⟨_, _, hstep, ⟨wellFormed_step hc.toWellFormed hstep, hc.up, hc.down, fun hmem => ?_⟩,
        hnothing.lived⟩
      exact hc.destroyed ((List.mem_append.1 hmem).resolve_right (by simp))
  | shutdown =>
    by_cases hstate : c.state = .kConnected
    · refine ⟨_, _, congrArg some (if_pos hstate), ?_⟩
      simpa using hc.goes_disconnecting (hconnected hstate) callbacks_shutdownInLoop [] (by simp)
    · exact ⟨[], c, congrArg some (if_neg hstate), hnothing⟩
  | shutdownElsewhere =>
    refine ⟨_, _, rfl, ?_⟩
    split
    · next hstate => exact hc.goes_disconnecting (hconnected hstate) rfl _ (by simp)
    · exact hnothing
  | forceClose =>
    refine ⟨_, _, rfl, ?_⟩
    split
    · next hopen => exact hc.goes_disconnecting hopen rfl _ (by simp)
    · exact hnothing
  | forceCloseWithDelay =>
    refine ⟨_, _, rfl, ?_⟩
    split
    · next hopen => simpa using hc.goes_disconnecting hopen rfl [] (by simp)
    · exact hnothing
  | take len =>
    obtain ⟨inputBuffer, hretrieve⟩ := Option.isSome_iff_exists.1 (Buffer.isSome_retrieve h)
    refine ⟨_, { c with inputBuffer }, by rw [step, hretrieve]; rfl, ⟨⟨hc.closed, hc.reading, hc.writing,
      hc.connecting⟩, hc.up, hc.down, hc.destroyed⟩, fun l hl => by simpa [callbacks] using hl⟩
  | poll revents =>
    obtain ⟨hreading, hphases, hreported⟩ := h
    have hopen : c.isOpen := by
      by_contra hclosed
      rw [(hc.closed hclosed).1] at hreading
      cases hreading
    refine ⟨[], { c with phases := revents.phases }, by simp [step, hphases], ⟨⟨hc.closed, hc.reading,
      hc.writing, hc.connecting⟩, fun _ => ?_, fun hclosed => absurd hopen hclosed, hc.destroyed⟩,
      hnothing.lived⟩
    obtain ⟨hrdHup, hhup⟩ := hreported
    obtain ⟨pollIn, pollPri, pollOut, pollErr, pollHup, pollNval, pollRdHup⟩ := revents
    cases pollIn <;> cases pollPri <;> cases pollHup <;> simp_all [closings, Revents.phases] <;>
      split <;> split <;> simp
  | handle arrived result =>
    cases hphases : c.phases with
    | nil => exact ⟨[], c, by simp [step, hphases], hnothing⟩
    | cons phase phases =>
      obtain ⟨es, c', hhandle, hgoes⟩ := hc.goes_handle hphases h
      exact ⟨es, c', by simpa [step, hphases] using hhandle, hgoes⟩
  | run result =>
    cases hpending : c.pending with
    | nil => exact ⟨[], c, by simp [step, hpending], hnothing⟩
    | cons f pending =>
      obtain ⟨es, c', hrun, hgoes⟩ := hc.goes_run hpending h.1 fun message hf =>
        h.2 message (by rw [hpending, hf]; rfl)
      exact ⟨es, c', by simpa [step, hpending] using hrun, hgoes⟩

/-- A run of which every step is possible. -/
abbrev PossibleRun (c : TcpConnection) (is : List ConnInput) : Prop :=
  Along (fun c i => (c.step i).map Prod.snd) Possible c is

theorem Lively.goes_runs {is : List ConnInput} (hc : c.Lively) (h : c.PossibleRun is) :
    ∃ out c', runs step c is = some (out, c') ∧ c.Goes out.flatten c' := by
  induction is generalizing c with
  | nil => exact ⟨[], c, rfl, hc, fun l hl => by simpa [callbacks] using hl⟩
  | cons i is ih =>
    obtain ⟨hi, hrest⟩ := (along_cons _ _ _).1 h
    obtain ⟨es, d, hstep, hgoes⟩ := hc.goes_step hi
    obtain ⟨out, c', hrun, hgoes'⟩ := ih hgoes.lively (hrest d (by rw [hstep]; rfl))
    refine ⟨es :: out, c', runs_cons_eq_some.2 ⟨es, d, out, hstep, hrun, rfl⟩, hgoes'.lively,
      fun l hl => ?_⟩
    rw [List.flatten_cons, callbacks_append, ← List.append_assoc]
    exact hgoes'.lived _ (hgoes.lived l hl)

/-- **A connection has one life.** No assertion fails in a run of possible steps, and the callbacks are
that the connection is up, the messages, and when it is down that it is down and closed, each of these
once. -/
theorem one_life {is : List ConnInput} (h : PossibleRun {} is) :
    ∃ out c, runs step {} is = some (out, c) ∧ Lived c.state (callbacks out.flatten) := by
  obtain ⟨out, c, hrun, hgoes⟩ := lively_new.goes_runs h
  exact ⟨out, c, hrun, hgoes.lived [] rfl⟩

/-- A connection that comes up, is sent two bytes, and is ended by its peer. -/
theorem one_life_hi : ∃ out c,
    runs step {} [.connectEstablished, .poll { pollIn := true }, .handle (some (ascii "hi")) .wouldBlock,
        .poll { pollIn := true, pollHup := true }, .handle (some []) .wouldBlock, .run .wouldBlock] =
      some (out, c) ∧ Lived c.state (callbacks out.flatten) := by
  refine one_life ?_
  refine ⟨rfl, fun c₁ h₁ => ?_⟩
  cases h₁
  refine ⟨⟨rfl, rfl, rfl, by simp⟩, fun c₂ h₂ => ?_⟩
  cases h₂
  refine ⟨trivial, fun c₃ h₃ => ?_⟩
  cases h₃
  refine ⟨⟨rfl, rfl, rfl, by simp⟩, fun c₄ h₄ => ?_⟩
  cases h₄
  refine ⟨trivial, fun c₅ h₅ => ?_⟩
  cases h₅
  refine ⟨⟨rfl, ?_⟩, fun _ _ => trivial⟩
  intro message hmessage
  cases hmessage

/-! ## What is received -/

/-- The bytes that the user has taken. -/
def takenBytes (effects : List Effect) : Bytes :=
  effects.flatMap fun
    | .taken data => data
    | _ => []

/-- The bytes that arrive in a step. -/
def received (c : TcpConnection) : ConnInput → Bytes
  | .handle (some arrived) _ => if c.phases.head? = some .read then arrived else []
  | _ => []

/-- The bytes that arrive in a run. -/
def receivedBy : TcpConnection → List ConnInput → Bytes
  | _, [] => []
  | c, i :: is => c.received i ++ (c.step i).elim [] fun p => receivedBy p.2 is

theorem takenBytes_of_writes
    (h : ∀ e ∈ es, (∃ d, e = .written d) ∨ e = .shutdownWrite) : takenBytes es = [] := by
  rw [takenBytes, List.flatMap_eq_nil_iff]
  intro e he
  rcases h e he with ⟨d, rfl⟩ | rfl <;> rfl

theorem takenBytes_shutdownInLoop : takenBytes c.shutdownInLoop = [] := by
  unfold shutdownInLoop
  split <;> rfl

/-- A step that neither receives nor takes. -/
theorem received_of_same (hes : takenBytes es = []) (hsame : c'.inputBuffer = c.inputBuffer) :
    c.inputBuffer.content ++ [] = takenBytes es ++ c'.inputBuffer.content := by
  rw [hes, hsame, List.append_nil, List.nil_append]

theorem received_handleClose (h : c.handleClose = some (es, c')) :
    c.inputBuffer.content ++ [] = takenBytes es ++ c'.inputBuffer.content := by
  obtain ⟨-, rfl, rfl⟩ := handleClose_eq_some.1 h
  exact received_of_same rfl rfl

theorem received_sendInLoop (h : c.sendInLoop message result = some (es, c')) :
    c.inputBuffer.content ++ [] = takenBytes es ++ c'.inputBuffer.content := by
  have hsends := sends_sendInLoop h
  exact received_of_same (takenBytes_of_writes fun e he => .inl (hsends.writes e he))
    hsends.same.inputBuffer

theorem received_handle {phase : Phase} {arrived : Option Bytes}
    (h : c.handle phase arrived result = some (es, c')) :
    c.inputBuffer.content ++ (if phase = .read then arrived.getD [] else []) =
      takenBytes es ++ c'.inputBuffer.content := by
  cases phase with
  | close => exact received_handleClose h
  | error =>
    cases h
    exact received_of_same rfl rfl
  | read =>
    cases arrived with
    | none =>
      cases h
      exact received_of_same rfl rfl
    | some arrived =>
      cases arrived with
      | nil => exact received_handleClose h
      | cons b bs =>
        cases h
        simp [takenBytes]
  | write =>
    have hflushes := flushes_handleWrite h
    exact received_of_same
      (takenBytes_of_writes fun e he => (hflushes.writes e he).imp_right And.left)
      hflushes.same.inputBuffer

theorem received_run {f : Functor} (h : c.run f result = some (es, c')) :
    c.inputBuffer.content ++ [] = takenBytes es ++ c'.inputBuffer.content := by
  cases f with
  | sendInLoop message => exact received_sendInLoop h
  | shutdownInLoop =>
    cases h
    exact received_of_same takenBytes_shutdownInLoop rfl
  | forceCloseInLoop =>
    simp only [run] at h
    split_ifs at h
    · exact received_handleClose h
    · cases h
      exact received_of_same rfl rfl
  | connectDestroyed =>
    simp only [run, connectDestroyed] at h
    split_ifs at h <;> (cases h; exact received_of_same rfl rfl)
  | writeCompleteCallback | highWaterMarkCallback len =>
    cases h
    exact received_of_same rfl rfl

/-- **What arrives in a step is taken or kept**, behind what has been kept before. -/
theorem received_step {i : ConnInput} (h : c.step i = some (es, c')) :
    c.inputBuffer.content ++ c.received i = takenBytes es ++ c'.inputBuffer.content := by
  cases i with
  | connectEstablished =>
    simp only [step, connectEstablished, Option.ite_none_right_eq_some, Option.some.injEq,
      Prod.mk.injEq] at h
    obtain ⟨-, rfl, rfl⟩ := h
    exact received_of_same rfl rfl
  | send message result =>
    simp only [step, send] at h
    split_ifs at h
    · exact received_sendInLoop h
    · cases h
      exact received_of_same rfl rfl
  | beginSend message | shutdownElsewhere | forceClose | forceCloseWithDelay | poll revents =>
    cases h
    split <;> exact received_of_same rfl rfl
  | endSend j =>
    simp only [step] at h
    split at h <;> (cases h; exact received_of_same rfl rfl)
  | shutdown =>
    simp only [step, Option.some.injEq] at h
    split at h
    · cases h
      exact received_of_same takenBytes_shutdownInLoop rfl
    · cases h
      exact received_of_same rfl rfl
  | take len =>
    obtain ⟨inputBuffer, hretrieve, hpair⟩ := Option.map_eq_some_iff.1 h
    cases hpair
    obtain ⟨-, hcontent, -⟩ := Buffer.retrieve_eq_some hretrieve
    simp [received, takenBytes, hcontent]
  | handle arrived result =>
    simp only [step] at h
    split at h
    · next hphases =>
      cases h
      cases arrived <;> simp [received, hphases, takenBytes]
    · next phase phases hphases =>
      have hhandle := received_handle h
      cases arrived with
      | none => simpa [received] using hhandle
      | some arrived => simpa [received, hphases] using hhandle
  | run result =>
    simp only [step] at h
    split at h
    · cases h
      exact received_of_same rfl rfl
    · have hrun := received_run h
      exact hrun

theorem received_runs {is : List ConnInput} {out : List (List Effect)}
    (h : runs step c is = some (out, c')) :
    c.inputBuffer.content ++ c.receivedBy is =
      takenBytes out.flatten ++ c'.inputBuffer.content := by
  induction is generalizing c out with
  | nil =>
    cases h
    simp [receivedBy, takenBytes]
  | cons i is ih =>
    obtain ⟨es, d, out', hstep, hrest, rfl⟩ := runs_cons_eq_some.1 h
    rw [receivedBy, hstep, Option.elim_some, ← List.append_assoc, received_step hstep,
      List.append_assoc, ih hrest, List.flatten_cons, takenBytes, takenBytes, takenBytes,
      List.flatMap_append, List.append_assoc]

/-- **Nothing that arrives is lost.** After every run that has begun with a new connection, the bytes that
the user has taken and then the input buffer are the bytes that have arrived. -/
theorem received_exact {is : List ConnInput} {out : List (List Effect)}
    (h : runs step {} is = some (out, c)) :
    takenBytes out.flatten ++ c.inputBuffer.content = receivedBy {} is := by
  rw [← received_runs h, Buffer.content_new, List.nil_append]

/-- Two bytes arrive, and one of them is taken. -/
theorem received_exact_hi : ∃ out c,
    runs step {} [.connectEstablished, .poll { pollIn := true }, .handle (some [0x68, 0x69]) .wouldBlock,
        .take 1] = some (out, c) ∧
      takenBytes out.flatten ++ c.inputBuffer.content = receivedBy {} [.connectEstablished,
        .poll { pollIn := true }, .handle (some [0x68, 0x69]) .wouldBlock, .take 1] := by
  have hpossible : PossibleRun {} [.connectEstablished, .poll { pollIn := true },
      .handle (some [0x68, 0x69]) .wouldBlock, .take 1] := by
    refine ⟨rfl, fun c₁ h₁ => ?_⟩
    cases h₁
    refine ⟨⟨rfl, rfl, rfl, by simp⟩, fun c₂ h₂ => ?_⟩
    cases h₂
    refine ⟨trivial, fun c₃ h₃ => ?_⟩
    cases h₃
    refine ⟨?_, fun _ _ => trivial⟩
    rw [Possible, Buffer.content_readFd, List.length_append]
    exact le_add_left (by decide)
  obtain ⟨out, c, hrun, -⟩ := lively_new.goes_runs hpossible
  exact ⟨out, c, hrun, received_exact hrun⟩

end TcpConnection

end Net

end GraduationServer
