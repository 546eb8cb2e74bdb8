import GraduationServer.Foundations.Simulations
import GraduationServer.Net.TcpConnection

/-!
# The bytes that a connection sends

A message is accepted when `sendInLoop` takes it: the connection is not down, and the message does not meet
a broken connection. What has been written and what is in the output buffer are the accepted messages, in
order, after every run (`TcpConnection.stream_exact`); and while a connection is up, it waits for the
socket exactly as long as there is something to write.

The end of the stream comes behind everything that has been accepted, and nothing is written behind it,
unless another thread has had a message under way (`TcpConnection.half_close_last`).
-/

namespace GraduationServer

namespace Net

/-- The bytes that the system has taken. -/
def writtenBytes (effects : List Effect) : Bytes :=
  effects.flatMap fun
    | .written data => data
    | _ => []

@[simp] theorem writtenBytes_nil : writtenBytes [] = [] := rfl

theorem writtenBytes_append (es es' : List Effect) :
    writtenBytes (es ++ es') = writtenBytes es ++ writtenBytes es' :=
  List.flatMap_append

/-- The functors that only call the user. -/
def Functor.IsNotice : Functor → Prop
  | .writeCompleteCallback | .highWaterMarkCallback _ => True
  | _ => False

namespace TcpConnection

variable {c c' : TcpConnection} {es : List Effect} {message : Bytes} {result : WriteResult}

/-! ## What is accepted -/

/-- What `sendInLoop` accepts of a message: all of it or nothing. -/
def acceptedInLoop (c : TcpConnection) (message : Bytes) (result : WriteResult) : Bytes :=
  if c.state = .kDisconnected ∨ (c.writesDirectly ∧ result = .broken) then [] else message

/-- What a step accepts. -/
def accepted (c : TcpConnection) : ConnInput → Bytes
  | .send message result => if c.state = .kConnected then c.acceptedInLoop message result else []
  | .run result =>
    match c.pending with
    | .sendInLoop message :: _ => c.acceptedInLoop message result
    | _ => []
  | _ => []

/-- What a run accepts. -/
def acceptedBy : TcpConnection → List ConnInput → Bytes
  | _, [] => []
  | c, i :: is => c.accepted i ++ (c.step i).elim [] fun p => acceptedBy p.2 is

/-! ## One call -/

/-- What a call to send leaves as it is. -/
structure Same (c c' : TcpConnection) : Prop where
  state : c'.state = c.state
  isReading : c'.isReading = c.isReading
  inputBuffer : c'.inputBuffer = c.inputBuffer
  phases : c'.phases = c.phases
  sending : c'.sending = c.sending

theorem Same.refl (c : TcpConnection) : c.Same c := ⟨rfl, rfl, rfl, rfl, rfl⟩

/-- What `sendInLoop` does: it writes and keeps what it accepts, and may keep notices for the user. -/
structure Sends (c : TcpConnection) (data : Bytes) (es : List Effect) (c' : TcpConnection) : Prop where
  same : c.Same c'
  stream : c.outputBuffer.content ++ data = writtenBytes es ++ c'.outputBuffer.content
  writes : ∀ e ∈ es, ∃ d, e = .written d
  notices : ∃ fs, (∀ f ∈ fs, Functor.IsNotice f) ∧ c'.pending = c.pending ++ fs
  writing : (c.isWriting ↔ c.outputBuffer.content ≠ []) →
    (c'.isWriting ↔ c'.outputBuffer.content ≠ [])

theorem Sends.nothing (c : TcpConnection) : c.Sends [] [] c where
  same := .refl c
  stream := by simp
  writes := by simp
  notices := ⟨[], by simp, by simp⟩
  writing := id

theorem isNotice_noteWriteComplete : ∀ f ∈ c.noteWriteComplete, f.IsNotice := by
  unfold noteWriteComplete
  split <;> simp [Functor.IsNotice]

theorem isNotice_noteHighWaterMark (remaining : ℕ) :
    ∀ f ∈ c.noteHighWaterMark remaining, f.IsNotice := by
  unfold noteHighWaterMark
  dsimp only
  split <;> simp [Functor.IsNotice]

/-- Bytes that are kept are appended, and the socket is waited for. -/
theorem sends_keep (c : TcpConnection) (rest : Bytes) : c.Sends rest [] (c.keep rest) := by
  unfold keep
  split
  · next hnil => exact hnil ▸ .nothing c
  · next hne =>
    refine ⟨⟨rfl, rfl, rfl, rfl, rfl⟩, by simp, by simp, ?_, fun _ => by simp [hne]⟩
    exact ⟨_, isNotice_noteHighWaterMark _, rfl⟩

theorem content_of_writesDirectly (h : c.writesDirectly) : c.outputBuffer.content = [] := by
  simp only [writesDirectly, Bool.and_eq_true, decide_eq_true_eq] at h
  rw [← List.length_eq_zero_iff, Buffer.length_content]
  exact h.2

/-- A notice for the user does not change what is sent. -/
theorem Sends.of_noted {rest : Bytes} {fs : List Functor} (hfs : ∀ f ∈ fs, f.IsNotice)
    (h : (c.queueInLoop fs).Sends rest es c') : c.Sends rest es c' where
  same := ⟨h.same.state, h.same.isReading, h.same.inputBuffer, h.same.phases, h.same.sending⟩
  stream := h.stream
  writes := h.writes
  notices := by
    obtain ⟨fs', hfs', hpending⟩ := h.notices
    refine ⟨fs ++ fs', ?_, by rw [hpending, queueInLoop, List.append_assoc]⟩
    intro f hf
    exact (List.mem_append.1 hf).elim (hfs f) (hfs' f)
  writing := h.writing

/-- What the system takes at once goes out in front of what is kept, when nothing was kept before. -/
theorem Sends.written {rest data : Bytes} (h : c.Sends rest [] c')
    (hempty : c.outputBuffer.content = []) : c.Sends (data ++ rest) [.written data] c' where
  same := h.same
  stream := by
    have hstream := h.stream
    rw [hempty] at hstream ⊢
    simpa [writtenBytes] using hstream
  writes := by simp
  notices := h.notices
  writing := h.writing

/-- **`sendInLoop` sends what it accepts.** -/
theorem sends_sendInLoop (h : c.sendInLoop message result = some (es, c')) :
    c.Sends (c.acceptedInLoop message result) es c' := by
  unfold sendInLoop at h
  by_cases hstate : c.state = .kDisconnected
  · rw [if_pos hstate] at h
    cases h
    rw [acceptedInLoop, if_pos (.inl hstate)]
    exact .nothing c
  rw [if_neg hstate] at h
  by_cases hdirect : c.writesDirectly
  · rw [if_pos hdirect] at h
    have hempty : c.outputBuffer.content = [] := content_of_writesDirectly hdirect
    simp only [acceptedInLoop, hstate, hdirect, false_or, true_and]
    cases result with
    | wrote nwrote =>
      simp only [Option.ite_none_right_eq_some, Option.some.injEq, Prod.mk.injEq] at h
      obtain ⟨hle, rfl, rfl⟩ := h
      rw [if_neg (by simp)]
      have hsplit : message = message.take nwrote ++ message.drop nwrote :=
        (List.take_append_drop _ _).symm
      conv => enter [2]; rw [hsplit]
      refine Sends.written ?_ hempty
      split
      · exact (sends_keep _ _).of_noted isNotice_noteWriteComplete
      · exact sends_keep c _
    | broken =>
      cases h
      rw [if_pos rfl]
      exact .nothing c
    | wouldBlock | failed =>
      cases h
      rw [if_neg (by simp)]
      exact sends_keep c message
  · rw [if_neg hdirect] at h
    cases h
    rw [acceptedInLoop, if_neg (by simp [hstate, hdirect])]
    exact sends_keep c message

theorem sends_send (h : c.send message result = some (es, c')) :
    c.Sends (c.accepted (.send message result)) es c' := by
  unfold send at h
  simp only [accepted]
  split_ifs at h ⊢ with hstate
  · exact sends_sendInLoop h
  · cases h
    exact .nothing c

/-- What `handleWrite` does: it writes from the front of the output buffer, and ends the stream when that
has become empty and the user has asked for it. -/
structure Flushes (c : TcpConnection) (es : List Effect) (c' : TcpConnection) : Prop where
  same : c.Same c'
  stream : c.outputBuffer.content = writtenBytes es ++ c'.outputBuffer.content
  writes : ∀ e ∈ es, (∃ d, e = .written d) ∨
    (e = .shutdownWrite ∧ c'.state = .kDisconnecting ∧ c'.isWriting = false)
  notices : ∃ fs, (∀ f ∈ fs, Functor.IsNotice f) ∧ c'.pending = c.pending ++ fs
  writing : (c.isWriting ↔ c.outputBuffer.content ≠ []) →
    (c'.isWriting ↔ c'.outputBuffer.content ≠ [])

theorem Flushes.nothing (c : TcpConnection) : c.Flushes [] c where
  same := .refl c
  stream := by simp
  writes := by simp
  notices := ⟨[], by simp, by simp⟩
  writing := id

/-- Behind a write the rest is kept. -/
theorem flushes_flushed {outputBuffer : Buffer} {data : Bytes} (hwriting : c.isWriting)
    (hsplit : c.outputBuffer.content = data ++ outputBuffer.content) :
    c.Flushes (.written data :: (c.flushed outputBuffer).1) (c.flushed outputBuffer).2 := by
  unfold flushed
  split
  · next hdrained =>
    have hnil : outputBuffer.content = [] := by
      rw [← List.length_eq_zero_iff, Buffer.length_content, hdrained]
    refine ⟨⟨rfl, rfl, rfl, rfl, rfl⟩, ?_, ?_, ⟨_, isNotice_noteWriteComplete, rfl⟩,
      fun _ => by simp [hnil]⟩
    · dsimp only
      split <;> simpa [writtenBytes, shutdownInLoop] using hsplit
    · intro e he
      rcases List.mem_cons.1 he with rfl | he
      · exact .inl ⟨_, rfl⟩
      · dsimp only at he
        split at he
        · next hstate =>
          rw [shutdownInLoop, if_neg (by simp)] at he
          exact .inr ⟨List.mem_singleton.1 he, hstate, rfl⟩
        · cases he
  · next hdrained =>
    have hne : outputBuffer.content ≠ [] := by
      rw [Ne, ← List.length_eq_zero_iff, Buffer.length_content]
      exact hdrained
    refine ⟨⟨rfl, rfl, rfl, rfl, rfl⟩, ?_, by simp, ⟨[], by simp, by simp⟩,
      fun _ => by simp [hwriting, hne]⟩
    simpa [writtenBytes] using hsplit

/-- **`handleWrite` writes what is kept.** -/
theorem flushes_handleWrite (h : c.handleWrite result = some (es, c')) : c.Flushes es c' := by
  unfold handleWrite at h
  by_cases hwriting : c.isWriting
  · rw [if_pos hwriting] at h
    cases result with
    | wrote n =>
      cases n with
      | zero =>
        cases h
        exact .nothing c
      | succ n =>
        obtain ⟨outputBuffer, hretrieve, hpair⟩ := Option.map_eq_some_iff.1 h
        cases hpair
        obtain ⟨-, hcontent, -⟩ := Buffer.retrieve_eq_some hretrieve
        refine flushes_flushed hwriting ?_
        rw [hcontent, List.take_append_drop]
    | wouldBlock | broken | failed =>
      cases h
      exact .nothing c
  · rw [if_neg hwriting] at h
    cases h
    exact .nothing c

/-! ## The calls that send nothing -/

theorem isOpen_iff : c.isOpen ↔ c.state = .kConnected ∨ c.state = .kDisconnecting := by
  simp [isOpen]

theorem handleClose_eq_some : c.handleClose = some (es, c') ↔
    c.isOpen ∧ es = [.connection false, .close] ∧
      c' = { c with
        state := .kDisconnected
        isReading := false
        isWriting := false
        pending := c.pending ++ [.connectDestroyed] } := by
  rw [handleClose, Option.ite_none_right_eq_some, Option.some.injEq, Prod.mk.injEq]
  exact and_congr_right fun _ => and_congr eq_comm eq_comm

/-- A step that leaves the output buffer as it is and writes nothing. -/
structure Silent (c : TcpConnection) (es : List Effect) (c' : TcpConnection) : Prop where
  writes : writtenBytes es = []
  outputBuffer : c'.outputBuffer = c.outputBuffer

theorem silent_handleClose (h : c.handleClose = some (es, c')) : c.Silent es c' := by
  obtain ⟨-, rfl, rfl⟩ := handleClose_eq_some.1 h
  exact ⟨rfl, rfl⟩

theorem silent_connectDestroyed (h : c.connectDestroyed = some (es, c')) : c.Silent es c' := by
  unfold connectDestroyed at h
  split_ifs at h <;> (cases h; exact ⟨rfl, rfl⟩)

theorem silent_handleRead {arrived : Option Bytes} (h : c.handleRead arrived = some (es, c')) :
    c.Silent es c' := by
  cases arrived with
  | none =>
    cases h
    exact ⟨rfl, rfl⟩
  | some arrived =>
    cases arrived with
    | nil => exact silent_handleClose h
    | cons b bs =>
      cases h
      exact ⟨rfl, rfl⟩

theorem silent_shutdownInLoop : writtenBytes c.shutdownInLoop = [] := by
  unfold shutdownInLoop
  split <;> rfl

theorem Silent.stream (h : c.Silent es c') :
    c.outputBuffer.content ++ [] = writtenBytes es ++ c'.outputBuffer.content := by
  rw [h.writes, h.outputBuffer, List.append_nil, List.nil_append]

/-! ## Steps and runs -/

theorem stream_run {f : Functor} (h : c.run f result = some (es, c')) :
    c.outputBuffer.content ++
        (match f with
        | .sendInLoop message => c.acceptedInLoop message result
        | _ => []) = writtenBytes es ++ c'.outputBuffer.content := by
  cases f with
  | sendInLoop message => exact (sends_sendInLoop h).stream
  | shutdownInLoop =>
    cases h
    exact Silent.stream ⟨silent_shutdownInLoop, rfl⟩
  | forceCloseInLoop =>
    simp only [run] at h
    split_ifs at h
    · exact (silent_handleClose h).stream
    · cases h
      exact Silent.stream ⟨rfl, rfl⟩
  | connectDestroyed => exact (silent_connectDestroyed h).stream
  | writeCompleteCallback | highWaterMarkCallback len =>
    cases h
    exact Silent.stream ⟨rfl, rfl⟩

theorem stream_handle {phase : Phase} {arrived : Option Bytes}
    (h : c.handle phase arrived result = some (es, c')) :
    c.outputBuffer.content = writtenBytes es ++ c'.outputBuffer.content := by
  cases phase with
  | close => simpa using (silent_handleClose h).stream
  | error =>
    cases h
    rfl
  | read => simpa using (silent_handleRead h).stream
  | write => exact (flushes_handleWrite h).stream

/-- **What a step accepts goes out or is kept**, behind what has been kept before. -/
theorem stream_step {i : ConnInput} (h : c.step i = some (es, c')) :
    c.outputBuffer.content ++ c.accepted i = writtenBytes es ++ c'.outputBuffer.content := by
  cases i with
  | connectEstablished =>
    simp only [step, connectEstablished, Option.ite_none_right_eq_some, Option.some.injEq,
      Prod.mk.injEq] at h
    obtain ⟨-, rfl, rfl⟩ := h
    exact Silent.stream ⟨rfl, rfl⟩
  | send message result => exact (sends_send h).stream
  | beginSend message | shutdownElsewhere | forceClose | forceCloseWithDelay | poll revents =>
    cases h
    split <;> exact Silent.stream ⟨rfl, rfl⟩
  | endSend j =>
    simp only [step] at h
    split at h <;> (cases h; exact Silent.stream ⟨rfl, rfl⟩)
  | shutdown =>
    simp only [step, Option.some.injEq] at h
    split at h
    · cases h
      exact Silent.stream ⟨silent_shutdownInLoop, rfl⟩
    · cases h
      exact Silent.stream ⟨rfl, rfl⟩
  | take len =>
    obtain ⟨inputBuffer, -, hpair⟩ := Option.map_eq_some_iff.1 h
    cases hpair
    exact Silent.stream ⟨rfl, rfl⟩
  | handle arrived result =>
    simp only [step] at h
    simp only [accepted, List.append_nil]
    split at h
    · cases h
      rfl
    · have hhandle := stream_handle h
      exact hhandle
  | run result =>
    simp only [step] at h
    simp only [accepted]
    split at h
    · next hnil =>
      cases h
      rw [hnil]
      exact Silent.stream ⟨rfl, rfl⟩
    · next f pending hpending =>
      rw [hpending]
      have hrun := stream_run h
      cases f <;> exact hrun

/-- Behind every run, what has been written and what is kept is what has been accepted. -/
theorem stream_runs {is : List ConnInput} {out : List (List Effect)}
    (h : runs step c is = some (out, c')) :
    c.outputBuffer.content ++ c.acceptedBy is =
      writtenBytes out.flatten ++ c'.outputBuffer.content := by
  induction is generalizing c out with
  | nil =>
    cases h
    simp [acceptedBy]
  | cons i is ih =>
    obtain ⟨es, d, out', hstep, hrest, rfl⟩ := runs_cons_eq_some.1 h
    rw [acceptedBy, hstep, Option.elim_some, ← List.append_assoc, stream_step hstep,
      List.append_assoc, ih hrest, List.flatten_cons, writtenBytes_append, List.append_assoc]

/-! ## What a connection waits for -/

/-- A connection waits for nothing unless it is up; then it waits for bytes, and for the socket exactly as
long as bytes are kept. Before it comes up nothing is under way. -/
structure WellFormed (c : TcpConnection) : Prop where
  closed : ¬ c.isOpen → c.isReading = false ∧ c.isWriting = false
  reading : c.isOpen → c.isReading = true
  writing : c.isOpen → (c.isWriting ↔ c.outputBuffer.content ≠ [])
  connecting : c.state = .kConnecting → c.pending = [] ∧ c.sending = [] ∧ c.outputBuffer.content = []

theorem wellFormed_new : WellFormed {} where
  closed _ := ⟨rfl, rfl⟩
  reading h := by simp [isOpen] at h
  writing h := by simp [isOpen] at h
  connecting _ := ⟨rfl, rfl, Buffer.content_new 1024⟩

/-- A call that keeps the state, and writes from an open connection only. -/
theorem WellFormed.of_same (hc : c.WellFormed) (hsame : c.Same c')
    (hconnecting : c.state = .kConnecting → c' = c) (hclosed : ¬ c.isOpen → c'.isWriting = c.isWriting)
    (hwriting : (c.isWriting ↔ c.outputBuffer.content ≠ []) →
      (c'.isWriting ↔ c'.outputBuffer.content ≠ [])) : c'.WellFormed := by
  have hopen : c'.isOpen = c.isOpen := by rw [isOpen, isOpen, hsame.state]
  refine ⟨fun h => ?_, fun h => ?_, fun h => ?_, fun h => ?_⟩
  · rw [hopen] at h
    rw [hsame.isReading, hclosed h]
    exact hc.closed h
  · rw [hsame.isReading]
    exact hc.reading (hopen ▸ h)
  · exact hwriting (hc.writing (hopen ▸ h))
  · rw [hsame.state] at h
    exact hconnecting h ▸ hc.connecting h

theorem wellFormed_sendInLoop (hc : c.WellFormed) (hstate : c.state ≠ .kConnecting)
    (h : c.sendInLoop message result = some (es, c')) : c'.WellFormed := by
  have hsends := sends_sendInLoop h
  refine hc.of_same hsends.same (fun hconnecting => absurd hconnecting hstate) (fun hclosed => ?_)
    hsends.writing
  have hdown : c.state = .kDisconnected := by
    rw [isOpen_iff] at hclosed
    cases hs : c.state <;> simp_all
  unfold sendInLoop at h
  rw [if_pos hdown] at h
  cases h
  rfl

theorem wellFormed_handleWrite (hc : c.WellFormed) (h : c.handleWrite result = some (es, c')) :
    c'.WellFormed := by
  have hflushes := flushes_handleWrite h
  by_cases hopen : c.isOpen
  · refine hc.of_same hflushes.same (fun hconnecting => ?_) (absurd hopen) hflushes.writing
    rw [isOpen_iff, hconnecting] at hopen
    simp at hopen
  · have hwriting := (hc.closed hopen).2
    unfold handleWrite at h
    rw [if_neg (by simp [hwriting])] at h
    cases h
    exact hc

theorem wellFormed_handleClose (h : c.handleClose = some (es, c')) : c'.WellFormed := by
  obtain ⟨-, -, rfl⟩ := handleClose_eq_some.1 h
  exact ⟨fun _ => ⟨rfl, rfl⟩, fun h => by simp [isOpen] at h, fun h => by simp [isOpen] at h,
    fun h => by cases h⟩

theorem wellFormed_connectDestroyed (hc : c.WellFormed)
    (h : c.connectDestroyed = some (es, c')) : c'.WellFormed := by
  unfold connectDestroyed at h
  split_ifs at h
  · cases h
    exact ⟨fun _ => ⟨rfl, rfl⟩, fun h => by simp [isOpen] at h, fun h => by simp [isOpen] at h,
      fun h => by cases h⟩
  · cases h
    exact ⟨hc.closed, hc.reading, hc.writing, hc.connecting⟩

theorem wellFormed_run {f : Functor} {pending : List Functor} (hc : c.WellFormed)
    (hpending : c.pending = f :: pending)
    (h : run { c with pending } f result = some (es, c')) : c'.WellFormed := by
  have hstate : c.state ≠ .kConnecting := by
    intro hconnecting
    have hnil := (hc.connecting hconnecting).1
    rw [hpending] at hnil
    cases hnil
  have hrest : WellFormed { c with pending } :=
    ⟨hc.closed, hc.reading, hc.writing, fun hconnecting => absurd hconnecting hstate⟩
  cases f with
  | sendInLoop message => exact wellFormed_sendInLoop hrest hstate h
  | shutdownInLoop | writeCompleteCallback | highWaterMarkCallback len =>
    cases h
    exact hrest
  | forceCloseInLoop =>
    simp only [run] at h
    split_ifs at h
    · exact wellFormed_handleClose h
    · cases h
      exact hrest
  | connectDestroyed => exact wellFormed_connectDestroyed hrest h

theorem wellFormed_handle {phase : Phase} {arrived : Option Bytes} (hc : c.WellFormed)
    (h : c.handle phase arrived result = some (es, c')) : c'.WellFormed := by
  cases phase with
  | close => exact wellFormed_handleClose h
  | error =>
    cases h
    exact hc
  | read =>
    cases arrived with
    | none =>
      cases h
      exact hc
    | some arrived =>
      cases arrived with
      | nil => exact wellFormed_handleClose h
      | cons b bs =>
        cases h
        exact ⟨hc.closed, hc.reading, hc.writing, hc.connecting⟩
  | write => exact wellFormed_handleWrite hc h

/-- An open connection that another call of the user begins to close stays as it is but for that. -/
theorem WellFormed.disconnecting (hc : c.WellFormed) (hopen : c.isOpen) (fs : List Functor) :
    WellFormed { c with state := .kDisconnecting, pending := c.pending ++ fs } :=
  ⟨fun h => by simp [isOpen] at h, fun _ => hc.reading hopen, fun _ => hc.writing hopen,
    fun h => by cases h⟩

theorem wellFormed_step {i : ConnInput} (hc : c.WellFormed) (h : c.step i = some (es, c')) :
    c'.WellFormed := by
  have hconnected : c.state = .kConnected → c.isOpen := fun h => isOpen_iff.2 (.inl h)
  cases i with
  | connectEstablished =>
    simp only [step, connectEstablished, Option.ite_none_right_eq_some, Option.some.injEq,
      Prod.mk.injEq] at h
    obtain ⟨hstate, -, rfl⟩ := h
    obtain ⟨hpending, hsending, hcontent⟩ := hc.connecting hstate
    have hwriting : c.isWriting = false := (hc.closed (by simp [isOpen, hstate])).2
    exact ⟨fun h => by simp [isOpen] at h, fun _ => rfl, fun _ => by simp [hwriting, hcontent],
      fun h => by cases h⟩
  | send message result =>
    simp only [step, send] at h
    split_ifs at h with hstate
    · exact wellFormed_sendInLoop hc (by simp [hstate]) h
    · cases h
      exact hc
  | beginSend message =>
    cases h
    split
    · next hstate =>
      exact ⟨hc.closed, hc.reading, hc.writing, fun h => absurd (hstate.symm.trans h) (by simp)⟩
    · exact hc
  | endSend j =>
    simp only [step] at h
    split at h
    · cases h
      exact hc
    · next message hget =>
      cases h
      refine ⟨hc.closed, hc.reading, hc.writing, fun hconnecting => ?_⟩
      rw [(hc.connecting hconnecting).2.1] at hget
      cases hget
  | shutdown =>
    simp only [step, Option.some.injEq] at h
    split at h
    · next hstate =>
      cases h
      simpa using hc.disconnecting (hconnected hstate) []
    · cases h
      exact hc
  | shutdownElsewhere =>
    cases h
    split
    · next hstate => exact hc.disconnecting (hconnected hstate) _
    · exact hc
  | forceClose =>
    cases h
    split
    · next hopen => exact hc.disconnecting hopen _
    · exact hc
  | forceCloseWithDelay =>
    cases h
    split
    · next hopen => simpa using hc.disconnecting hopen []
    · exact hc
  | take len =>
    obtain ⟨inputBuffer, -, hpair⟩ := Option.map_eq_some_iff.1 h
    cases hpair
    exact ⟨hc.closed, hc.reading, hc.writing, hc.connecting⟩
  | poll revents =>
    cases h
    split
    · exact ⟨hc.closed, hc.reading, hc.writing, hc.connecting⟩
    · exact hc
  | handle arrived result =>
    simp only [step] at h
    split at h
    · cases h
      exact hc
    · next phase phases hphases =>
      have hrest : WellFormed { c with phases } :=
        ⟨hc.closed, hc.reading, hc.writing, hc.connecting⟩
      exact wellFormed_handle hrest h
  | run result =>
    simp only [step] at h
    split at h
    · cases h
      exact hc
    · next hpending => exact wellFormed_run hc hpending h

theorem wellFormed_runs {is : List ConnInput} {out : List (List Effect)} (hc : c.WellFormed)
    (h : runs step c is = some (out, c')) : c'.WellFormed :=
  runs_keeps WellFormed (fun _ _ _ _ => wellFormed_step) hc h

theorem stream_of_new {is : List ConnInput} {out : List (List Effect)}
    (h : runs step {} is = some (out, c)) :
    writtenBytes out.flatten ++ c.outputBuffer.content = acceptedBy {} is := by
  rw [← stream_runs h, Buffer.content_new, List.nil_append]

/-- **What is sent on a connection is what has been accepted, in order.** After every run that has begun
with a new connection, the bytes that the system has taken and then the output buffer are the messages
that have been accepted. While the connection is up, the socket is waited for exactly as long as something
is left of them; when it is not, all of them have been written. -/
theorem stream_exact {is : List ConnInput} {out : List (List Effect)}
    (h : runs step {} is = some (out, c)) :
    writtenBytes out.flatten ++ c.outputBuffer.content = acceptedBy {} is ∧
      (c.isOpen → (c.isWriting ↔ writtenBytes out.flatten ≠ acceptedBy {} is)) := by
  have hstream := stream_of_new h
  refine ⟨hstream, fun hopen => ?_⟩
  rw [(wellFormed_runs wellFormed_new h).writing hopen, ← hstream]
  simp

/-- Half of a message goes out. -/
theorem stream_exact_hi : ∃ out c,
    runs step {} [.connectEstablished, .send (ascii "hi") (.wrote 1)] = some (out, c) ∧
      writtenBytes out.flatten ++ c.outputBuffer.content =
        acceptedBy {} [.connectEstablished, .send (ascii "hi") (.wrote 1)] ∧
      (c.isOpen → (c.isWriting ↔ writtenBytes out.flatten ≠
        acceptedBy {} [.connectEstablished, .send (ascii "hi") (.wrote 1)])) :=
  ⟨_, _, rfl, stream_exact rfl⟩

/-! ## The end of the stream -/

/-- The user has ended the stream, or the connection is down. -/
def Ending (c : TcpConnection) : Prop := c.state = .kDisconnecting ∨ c.state = .kDisconnected

/-- A step by which no message comes under way, and no end of the stream but in a connection that the user
has ended. When nothing is left to be written, it writes nothing. -/
structure Unsent (c : TcpConnection) (es : List Effect) (c' : TcpConnection) : Prop where
  ending : c.Ending → c'.Ending
  pending : ∀ f ∈ c'.pending,
    f ∈ c.pending ∨ ((∀ m, f ≠ .sendInLoop m) ∧ (f = .shutdownInLoop → c'.Ending))
  sending : c'.sending = c.sending
  writing : c.isWriting = false → c'.isWriting = false ∧ writtenBytes es = []

theorem pending_of_notices (h : ∃ fs, (∀ f ∈ fs, Functor.IsNotice f) ∧ c'.pending = c.pending ++ fs) :
    ∀ f ∈ c'.pending,
      f ∈ c.pending ∨ ((∀ m, f ≠ .sendInLoop m) ∧ (f = .shutdownInLoop → c'.Ending)) := by
  obtain ⟨fs, hfs, hpending⟩ := h
  intro f hf
  refine (List.mem_append.1 (hpending ▸ hf)).imp_right fun hnew => ?_
  have hnotice := hfs f hnew
  constructor
  · rintro m rfl
    exact hnotice
  · rintro rfl
    exact hnotice.elim

theorem unsent_refl (c : TcpConnection) : c.Unsent [] c :=
  ⟨id, fun _ hf => .inl hf, rfl, fun h => ⟨h, rfl⟩⟩

theorem unsent_handleClose (h : c.handleClose = some (es, c')) : c.Unsent es c' := by
  obtain ⟨-, rfl, rfl⟩ := handleClose_eq_some.1 h
  exact ⟨fun _ => .inr rfl, by simp +contextual [or_imp], rfl, fun _ => ⟨rfl, rfl⟩⟩

theorem unsent_connectDestroyed (h : c.connectDestroyed = some (es, c')) : c.Unsent es c' := by
  unfold connectDestroyed at h
  split_ifs at h
  · cases h
    exact ⟨fun _ => .inr rfl, fun _ hf => .inl hf, rfl, fun _ => ⟨rfl, rfl⟩⟩
  · cases h
    exact ⟨id, fun _ hf => .inl hf, rfl, fun h => ⟨h, rfl⟩⟩

theorem unsent_handleRead {arrived : Option Bytes} (h : c.handleRead arrived = some (es, c')) :
    c.Unsent es c' := by
  cases arrived with
  | none =>
    cases h
    exact unsent_refl c
  | some arrived =>
    cases arrived with
    | nil => exact unsent_handleClose h
    | cons b bs =>
      cases h
      exact ⟨id, fun _ hf => .inl hf, rfl, fun h => ⟨h, rfl⟩⟩

theorem unsent_handleWrite (h : c.handleWrite result = some (es, c')) : c.Unsent es c' := by
  have hflushes := flushes_handleWrite h
  refine ⟨fun hending => ?_, pending_of_notices hflushes.notices, hflushes.same.sending,
    fun hwriting => ?_⟩
  · rwa [Ending, hflushes.same.state]
  · unfold handleWrite at h
    rw [if_neg (by simp [hwriting])] at h
    cases h
    exact ⟨hwriting, rfl⟩

theorem unsent_handle {phase : Phase} {arrived : Option Bytes}
    (h : c.handle phase arrived result = some (es, c')) : c.Unsent es c' := by
  cases phase with
  | close => exact unsent_handleClose h
  | error =>
    cases h
    exact unsent_refl c
  | read => exact unsent_handleRead h
  | write => exact unsent_handleWrite h

theorem unsent_run {f : Functor} (hf : ∀ m, f ≠ .sendInLoop m)
    (h : c.run f result = some (es, c')) : c.Unsent es c' := by
  cases f with
  | sendInLoop message => exact absurd rfl (hf message)
  | shutdownInLoop =>
    cases h
    exact ⟨id, fun _ hf => .inl hf, rfl, fun h => ⟨h, silent_shutdownInLoop⟩⟩
  | writeCompleteCallback | highWaterMarkCallback len =>
    cases h
    exact ⟨id, fun _ hf => .inl hf, rfl, fun h => ⟨h, rfl⟩⟩
  | forceCloseInLoop =>
    simp only [run] at h
    split_ifs at h
    · exact unsent_handleClose h
    · cases h
      exact unsent_refl c
  | connectDestroyed => exact unsent_connectDestroyed h

/-- No message of another thread is under way, and an end of the stream that is kept is the user's. -/
structure Alone (c : TcpConnection) : Prop where
  sending : c.sending = []
  pending : ∀ m, .sendInLoop m ∉ c.pending
  ending : .shutdownInLoop ∈ c.pending → c.Ending

theorem Alone.of_unsent (hc : c.Alone) (h : c.Unsent es c') : c'.Alone where
  sending := h.sending.trans hc.sending
  pending m hm := (h.pending _ hm).elim (hc.pending m) fun hnew => hnew.1 m rfl
  ending hm := (h.pending _ hm).elim (fun hold => h.ending (hc.ending hold)) fun hnew => hnew.2 rfl

/-- **The steps that send nothing**: all but the calls of `send`, and those in a connection that is not
connected. -/
theorem unsent_step {i : ConnInput} (hc : c.Alone)
    (hsend : ∀ m r, i = .send m r → c.state ≠ .kConnected)
    (hbegin : ∀ m, i = .beginSend m → c.state ≠ .kConnected) (h : c.step i = some (es, c')) :
    c.Unsent es c' := by
  cases i with
  | connectEstablished =>
    simp only [step, connectEstablished, Option.ite_none_right_eq_some, Option.some.injEq,
      Prod.mk.injEq] at h
    obtain ⟨hstate, rfl, rfl⟩ := h
    exact ⟨by simp [Ending, hstate], fun _ hf => .inl hf, rfl, fun h => ⟨h, rfl⟩⟩
  | send message result =>
    simp only [step, send, if_neg (hsend _ _ rfl)] at h
    cases h
    exact unsent_refl c
  | beginSend message =>
    cases h
    rw [if_neg (hbegin _ rfl)]
    exact unsent_refl c
  | endSend j =>
    simp only [step, hc.sending] at h
    cases h
    exact unsent_refl c
  | shutdown =>
    simp only [step, Option.some.injEq] at h
    split at h
    · cases h
      exact ⟨fun _ => .inl rfl, fun _ hf => .inl hf, rfl, fun h => ⟨h, silent_shutdownInLoop⟩⟩
    · cases h
      exact unsent_refl c
  | shutdownElsewhere | forceClose =>
    cases h
    split
    · exact ⟨fun _ => .inl rfl, by simp +contextual [queueInLoop, Ending, or_imp], rfl,
        fun h => ⟨h, rfl⟩⟩
    · exact unsent_refl c
  | forceCloseWithDelay =>
    cases h
    split
    · exact ⟨fun _ => .inl rfl, fun _ hf => .inl hf, rfl, fun h => ⟨h, rfl⟩⟩
    · exact unsent_refl c
  | take len =>
    obtain ⟨inputBuffer, -, hpair⟩ := Option.map_eq_some_iff.1 h
    cases hpair
    exact ⟨id, fun _ hf => .inl hf, rfl, fun h => ⟨h, rfl⟩⟩
  | poll revents =>
    cases h
    split
    · exact ⟨id, fun _ hf => .inl hf, rfl, fun h => ⟨h, rfl⟩⟩
    · exact unsent_refl c
  | handle arrived result =>
    simp only [step] at h
    split at h
    · cases h
      exact unsent_refl c
    · have hunsent := unsent_handle h
      exact ⟨hunsent.ending, hunsent.pending, hunsent.sending, hunsent.writing⟩
  | run result =>
    simp only [step] at h
    split at h
    · cases h
      exact unsent_refl c
    · next f pending hpending =>
      have hf : ∀ m, f ≠ .sendInLoop m := fun m hm =>
        hc.pending m (hpending ▸ hm ▸ List.mem_cons_self)
      have hunsent := unsent_run hf h
      refine ⟨hunsent.ending, fun g hg => ?_, hunsent.sending, hunsent.writing⟩
      exact (hunsent.pending g hg).imp_left fun hold => hpending ▸ List.mem_cons_of_mem _ hold

/-- Without a message of another thread there is none after a step either. -/
theorem alone_step {i : ConnInput} (hc : c.Alone) (hbegin : ∀ m, i ≠ .beginSend m)
    (h : c.step i = some (es, c')) : c'.Alone := by
  cases i with
  | send message result =>
    have hsends := sends_send h
    have hending : c.Ending → c'.Ending := by
      intro hending
      rwa [Ending, hsends.same.state]
    have hpending := pending_of_notices hsends.notices
    exact ⟨hsends.same.sending.trans hc.sending,
      fun m hm => (hpending _ hm).elim (hc.pending m) fun hnew => hnew.1 m rfl,
      fun hm => (hpending _ hm).elim (fun hold => hending (hc.ending hold)) fun hnew => hnew.2 rfl⟩
  | _ => exact hc.of_unsent (unsent_step hc (by simp) (fun m hm => absurd hm (hbegin m)) h)

theorem alone_runs {is : List ConnInput} {out : List (List Effect)} (hc : c.Alone)
    (hbegin : ∀ m, .beginSend m ∉ is) (h : runs step c is = some (out, c')) : c'.Alone := by
  induction is generalizing c out with
  | nil =>
    cases h
    exact hc
  | cons i is ih =>
    obtain ⟨es, d, out', hstep, hrest, -⟩ := runs_cons_eq_some.1 h
    refine ih (alone_step hc (fun m hm => ?_) hstep) (fun m hm => ?_) hrest
    · exact hbegin m (hm ▸ List.mem_cons_self)
    · exact hbegin m (List.mem_cons_of_mem _ hm)

/-- The stream has been ended: nothing is left to be written, and no message is under way. -/
structure Finished (c : TcpConnection) : Prop extends Alone c where
  ended : c.Ending
  writing : c.isWriting = false

/-- **Nothing is written behind the end of the stream.** -/
theorem finished_step {i : ConnInput} (hc : c.Finished) (h : c.step i = some (es, c')) :
    c'.Finished ∧ writtenBytes es = [] := by
  have hstate : c.state ≠ .kConnected := by
    rcases hc.ended with hs | hs <;> simp [hs]
  have hunsent := unsent_step hc.toAlone (fun _ _ _ => hstate) (fun _ _ => hstate) h
  obtain ⟨hwriting, hwritten⟩ := hunsent.writing hc.writing
  exact ⟨⟨hc.toAlone.of_unsent hunsent, hunsent.ending hc.ended, hwriting⟩, hwritten⟩

theorem finished_runs {is : List ConnInput} {out : List (List Effect)} (hc : c.Finished)
    (h : runs step c is = some (out, c')) : writtenBytes out.flatten = [] := by
  induction is generalizing c out with
  | nil =>
    cases h
    rfl
  | cons i is ih =>
    obtain ⟨es, d, out', hstep, hrest, rfl⟩ := runs_cons_eq_some.1 h
    obtain ⟨hd, hwritten⟩ := finished_step hc hstep
    rw [List.flatten_cons, writtenBytes_append, hwritten, ih hd hrest, List.nil_append]

theorem mem_shutdownInLoop (h : .shutdownWrite ∈ c.shutdownInLoop) : c.isWriting = false := by
  unfold shutdownInLoop at h
  split_ifs at h with hwriting
  · cases h
  · exact Bool.eq_false_iff.2 hwriting

/-- The step that ends the stream. -/
theorem ending_of_shutdownWrite {i : ConnInput} (hc : c.Alone) (h : c.step i = some (es, c'))
    (hend : .shutdownWrite ∈ es) : c'.Ending ∧ c'.isWriting = false := by
  cases i with
  | connectEstablished =>
    simp only [step, connectEstablished, Option.ite_none_right_eq_some, Option.some.injEq,
      Prod.mk.injEq] at h
    obtain ⟨-, rfl, -⟩ := h
    simp at hend
  | send message result =>
    obtain ⟨d, hd⟩ := (sends_send h).writes _ hend
    cases hd
  | beginSend message | shutdownElsewhere | forceClose | forceCloseWithDelay | poll revents =>
    cases h
    cases hend
  | endSend j =>
    simp only [step] at h
    split at h <;> (cases h; cases hend)
  | shutdown =>
    simp only [step, Option.some.injEq] at h
    split at h
    · cases h
      exact ⟨.inl rfl, mem_shutdownInLoop hend⟩
    · cases h
      cases hend
  | take len =>
    obtain ⟨inputBuffer, -, hpair⟩ := Option.map_eq_some_iff.1 h
    cases hpair
    simp at hend
  | handle arrived result =>
    simp only [step] at h
    split at h
    · cases h
      cases hend
    · next phase phases hphases =>
      have hclose : ∀ {d : TcpConnection}, d.handleClose = some (es, c') → False := by
        intro d hd
        obtain ⟨-, rfl, -⟩ := handleClose_eq_some.1 hd
        simp at hend
      cases phase with
      | close => exact (hclose h).elim
      | error =>
        cases h
        cases hend
      | read =>
        cases arrived with
        | none =>
          cases h
          cases hend
        | some arrived =>
          cases arrived with
          | nil => exact (hclose h).elim
          | cons b bs =>
            cases h
            simp at hend
      | write =>
        rcases (flushes_handleWrite h).writes _ hend with ⟨d, hd⟩ | ⟨-, hstate, hwriting⟩
        · cases hd
        · exact ⟨.inl hstate, hwriting⟩
  | run result =>
    simp only [step] at h
    split at h
    · cases h
      cases hend
    · next f pending hpending =>
      cases f with
      | sendInLoop message =>
        obtain ⟨d, hd⟩ := (sends_sendInLoop h).writes _ hend
        cases hd
      | shutdownInLoop =>
        cases h
        exact ⟨hc.ending (hpending ▸ List.mem_cons_self), mem_shutdownInLoop hend⟩
      | writeCompleteCallback | highWaterMarkCallback len =>
        cases h
        simp at hend
      | forceCloseInLoop =>
        simp only [run] at h
        split_ifs at h
        · obtain ⟨-, rfl, -⟩ := handleClose_eq_some.1 h
          simp at hend
        · cases h
          cases hend
      | connectDestroyed =>
        simp only [run, connectDestroyed] at h
        split_ifs at h <;> (cases h; simp at hend)

/-- **The end of the stream is the last that is sent.** When no other thread sends, and a step ends the
stream of a connection, then nothing is written in any run behind it; and if the connection is still up,
all that has been accepted was written before. -/
theorem half_close_last {before after : List ConnInput} {i : ConnInput} {c'' : TcpConnection}
    {out out' : List (List Effect)} (hthreads : ∀ m, .beginSend m ∉ before)
    (hi : ∀ m, i ≠ .beginSend m) (hbefore : runs step {} before = some (out, c))
    (h : c.step i = some (es, c')) (hend : .shutdownWrite ∈ es)
    (hafter : runs step c' after = some (out', c'')) :
    writtenBytes out'.flatten = [] ∧
      (c'.isOpen → writtenBytes (out.flatten ++ es) = acceptedBy {} before ++ c.accepted i) := by
  have hnew : Alone {} := ⟨rfl, by simp, by simp⟩
  have halone : c.Alone := alone_runs hnew hthreads hbefore
  obtain ⟨hending, hwriting⟩ := ending_of_shutdownWrite halone h hend
  refine ⟨finished_runs ⟨alone_step halone hi h, hending, hwriting⟩ hafter, fun hopen => ?_⟩
  have hwf : c'.WellFormed := wellFormed_step (wellFormed_runs wellFormed_new hbefore) h
  have hnil : c'.outputBuffer.content = [] := by
    by_contra hne
    have hwaiting := (hwf.writing hopen).2 hne
    rw [hwriting] at hwaiting
    cases hwaiting
  have hstream := stream_of_new hbefore
  have hstep := stream_step h
  rw [hnil, List.append_nil] at hstep
  rw [← hstream, List.append_assoc, hstep, writtenBytes_append]

/-- Two bytes in one message, and the end of the stream. -/
theorem half_close_last_hi :
    writtenBytes (List.flatten [[]]) = [] ∧
      (isOpen { state := .kDisconnecting, isReading := true, addedToLoop := true } →
        writtenBytes (List.flatten [[.connection true], [.written (ascii "hi")]] ++ [.shutdownWrite]) =
          acceptedBy {} [.connectEstablished, .send (ascii "hi") (.wrote 2)] ++
            accepted { state := .kConnected, isReading := true, addedToLoop := true } .shutdown) :=
  have hbefore : runs step {} [.connectEstablished, .send (ascii "hi") (.wrote 2)] =
      some ([[.connection true], [.written (ascii "hi")]],
        { state := .kConnected, isReading := true, addedToLoop := true }) := rfl
  have hafter : runs step { state := .kDisconnecting, isReading := true, addedToLoop := true }
      [.send (ascii "no") (.wrote 2)] =
        some ([[]], { state := .kDisconnecting, isReading := true, addedToLoop := true }) := rfl
  half_close_last (by simp) (by simp) hbefore rfl (by decide) hafter

end TcpConnection

end Net

end GraduationServer
