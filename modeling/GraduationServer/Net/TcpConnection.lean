import GraduationServer.Net.Buffer

/-!
# A connection

`TcpConnection` (`net/TcpConnection.h`, `net/TcpConnection.cc`) with the part of its `Channel` that it
uses: the state, the two buffers, the events it waits for, and the functors that the loop keeps for it.

The inputs of a connection are the calls of its user on the thread of the loop, the calls of other
threads, the events of a poll, and the functors that the loop runs. The callbacks of one event are handled
one after the other (`Phase`), and the message callback of the user may call the connection between them. A
write has its result from the system.

A step gives what is seen of it from outside (`Effect`), and is `none` when an assertion of the source
fails. The close callback is `TcpServer::removeConnection`, which leads to `connectDestroyed` in the same
loop.
-/

namespace GraduationServer

namespace Net

/-! ## The state -/

/-- `StateE`. -/
inductive StateE
  | kDisconnected
  | kConnecting
  | kConnected
  | kDisconnecting
  deriving DecidableEq

/-- What the loop keeps to run later. -/
inductive Functor
  | sendInLoop (message : Bytes)
  | shutdownInLoop
  | forceCloseInLoop
  | connectDestroyed
  | writeCompleteCallback
  | highWaterMarkCallback (len : ℕ)
  deriving DecidableEq

/-- The callbacks of a channel. -/
inductive Phase
  | close
  | error
  | read
  | write
  deriving DecidableEq

/-- The members of a connection, with what its channel waits for, the callbacks that are left of the event
at hand, and the messages of other threads that have passed the test of `send` and are not yet kept. -/
structure TcpConnection where
  state : StateE := .kConnecting
  isReading : Bool := false
  isWriting : Bool := false
  addedToLoop : Bool := false
  inputBuffer : Buffer := .new 1024
  outputBuffer : Buffer := .new 1024
  highWaterMark : ℕ := 64 * 1024 * 1024
  hasWriteCompleteCallback : Bool := false
  hasHighWaterMarkCallback : Bool := false
  pending : List Functor := []
  phases : List Phase := []
  sending : List Bytes := []

/-- What is seen of a step: bytes that the system takes, the end of the stream to the peer, the callbacks,
and bytes that the user takes from the input buffer. -/
inductive Effect
  | written (data : Bytes)
  | shutdownWrite
  | connection (connected : Bool)
  | message (content : Bytes)
  | close
  | writeComplete
  | highWaterMark (len : ℕ)
  | taken (data : Bytes)
  deriving DecidableEq

/-- The result of a write: a number of bytes, or an error. -/
inductive WriteResult
  | wrote (n : ℕ)
  | wouldBlock
  | broken
  | failed
  deriving DecidableEq

/-- The events that a poll reports. -/
structure Revents where
  pollIn : Bool := false
  pollPri : Bool := false
  pollOut : Bool := false
  pollErr : Bool := false
  pollHup : Bool := false
  pollNval : Bool := false
  pollRdHup : Bool := false

/-- `Channel::handleEventWithGuard`: the callbacks for the reported events. -/
def Revents.phases (r : Revents) : List Phase :=
  (if r.pollHup && !r.pollIn then [.close] else []) ++
  (if r.pollErr || r.pollNval then [.error] else []) ++
  (if r.pollIn || r.pollPri || r.pollRdHup then [.read] else []) ++
  (if r.pollOut then [.write] else [])

namespace TcpConnection

variable (c : TcpConnection)

/-- `state_ == kConnected || state_ == kDisconnecting`. -/
def isOpen : Bool := c.state = .kConnected || c.state = .kDisconnecting

/-- `queueInLoop`. -/
def queueInLoop (fs : List Functor) : TcpConnection := { c with pending := c.pending ++ fs }

/-! ## Sending -/

/-- Whether `sendInLoop` tries to write directly. -/
def writesDirectly : Bool := !c.isWriting && c.outputBuffer.readableBytes = 0

/-- What is kept for `writeCompleteCallback_`, when there is one. -/
def noteWriteComplete : List Functor :=
  if c.hasWriteCompleteCallback then [.writeCompleteCallback] else []

/-- What is kept for `highWaterMarkCallback_`, when the output buffer passes the mark. -/
def noteHighWaterMark (remaining : ℕ) : List Functor :=
  let oldLen := c.outputBuffer.readableBytes
  if c.highWaterMark ≤ oldLen + remaining ∧ oldLen < c.highWaterMark ∧ c.hasHighWaterMarkCallback then
    [.highWaterMarkCallback (oldLen + remaining)]
  else []

/-- What has not gone out of a message is kept, if there is anything. -/
def keep (rest : Bytes) : TcpConnection :=
  if rest = [] then c
  else { c with
    pending := c.pending ++ c.noteHighWaterMark rest.length
    outputBuffer := c.outputBuffer.append rest
    isWriting := true }

/-- `sendInLoop`. The assertion is on the number of bytes that the system says it has written. -/
def sendInLoop (message : Bytes) (result : WriteResult) : Option (List Effect × TcpConnection) :=
  if c.state = .kDisconnected then some ([], c)
  else if c.writesDirectly then
    match result with
    | .wrote nwrote =>
      if nwrote ≤ message.length then
        let noted := if nwrote = message.length then c.queueInLoop c.noteWriteComplete else c
        some ([.written (message.take nwrote)], noted.keep (message.drop nwrote))
      else none
    | .broken => some ([], c)
    | .wouldBlock | .failed => some ([], c.keep message)
  else some ([], c.keep message)

/-- `send` on the thread of the loop. -/
def send (message : Bytes) (result : WriteResult) : Option (List Effect × TcpConnection) :=
  if c.state = .kConnected then c.sendInLoop message result else some ([], c)

/-- `shutdownInLoop`. -/
def shutdownInLoop : List Effect := if c.isWriting then [] else [.shutdownWrite]

/-! ## Closing -/

/-- `connectEstablished`. -/
def connectEstablished : Option (List Effect × TcpConnection) :=
  if c.state = .kConnecting then
    some ([.connection true], { c with state := .kConnected, isReading := true, addedToLoop := true })
  else none

/-- `handleClose`. -/
def handleClose : Option (List Effect × TcpConnection) :=
  if c.isOpen then
    some ([.connection false, .close],
      { c.queueInLoop [.connectDestroyed] with
        state := .kDisconnected
        isReading := false
        isWriting := false })
  else none

/-- `connectDestroyed`: the channel is removed, which has to wait for nothing then. -/
def connectDestroyed : Option (List Effect × TcpConnection) :=
  if c.state = .kConnected then
    some ([.connection false], { c with
      state := .kDisconnected
      isReading := false
      isWriting := false
      addedToLoop := false })
  else if c.isReading || c.isWriting then none
  else some ([], { c with addedToLoop := false })

/-! ## Events -/

/-- `handleRead`: the read fails, or some bytes arrive, and none when the peer has ended the stream. -/
def handleRead (arrived : Option Bytes) : Option (List Effect × TcpConnection) :=
  match arrived with
  | none => some ([], c)
  | some [] => c.handleClose
  | some (b :: bs) =>
    let inputBuffer := c.inputBuffer.readFd (b :: bs)
    some ([.message inputBuffer.content], { c with inputBuffer })

/-- `handleWrite` behind a write, with what is left of the output buffer. -/
def flushed (outputBuffer : Buffer) : List Effect × TcpConnection :=
  if outputBuffer.readableBytes = 0 then
    let drained : TcpConnection := { c with
      outputBuffer
      isWriting := false
      pending := c.pending ++ c.noteWriteComplete }
    (if c.state = .kDisconnecting then drained.shutdownInLoop else [], drained)
  else ([], { c with outputBuffer })

/-- `handleWrite`. -/
def handleWrite (result : WriteResult) : Option (List Effect × TcpConnection) :=
  if c.isWriting then
    match result with
    | .wrote (n + 1) =>
      (c.outputBuffer.retrieve (n + 1)).map fun outputBuffer =>
        (.written (c.outputBuffer.content.take (n + 1)) :: (c.flushed outputBuffer).1,
          (c.flushed outputBuffer).2)
    | .wrote 0 | .wouldBlock | .broken | .failed => some ([], c)
  else some ([], c)

/-- What the loop has kept is run. -/
def run (f : Functor) (result : WriteResult) : Option (List Effect × TcpConnection) :=
  match f with
  | .sendInLoop message => c.sendInLoop message result
  | .shutdownInLoop => some (c.shutdownInLoop, c)
  | .forceCloseInLoop => if c.isOpen then c.handleClose else some ([], c)
  | .connectDestroyed => c.connectDestroyed
  | .writeCompleteCallback => some ([.writeComplete], c)
  | .highWaterMarkCallback len => some ([.highWaterMark len], c)

/-- A callback of the channel; that of an error only logs. -/
def handle (phase : Phase) (arrived : Option Bytes) (result : WriteResult) :
    Option (List Effect × TcpConnection) :=
  match phase with
  | .close => c.handleClose
  | .error => some ([], c)
  | .read => c.handleRead arrived
  | .write => c.handleWrite result

end TcpConnection

/-! ## Steps -/

/-- The inputs of a connection. Another thread sends in two steps, since the connection may change between
its test and the time when the message is kept. `shutdown`, `forceClose` and `forceCloseWithDelay` test and
set `state_` in one step: so it is on the thread of the loop, and on another one as long as nothing changes
`state_` in between, which the source does not prevent (its FIXME asks for an atomic exchange). Nobody calls
`startRead` or `stopRead`. -/
inductive ConnInput
  | connectEstablished
  | send (message : Bytes) (result : WriteResult)
  | beginSend (message : Bytes)
  | endSend (i : ℕ)
  | shutdown
  | shutdownElsewhere
  | forceClose
  | forceCloseWithDelay
  | take (len : ℕ)
  | poll (revents : Revents)
  | handle (arrived : Option Bytes) (result : WriteResult)
  | run (result : WriteResult)

namespace TcpConnection

/-- A step. Where there is nothing to handle or to run, nothing happens. -/
def step (c : TcpConnection) : ConnInput → Option (List Effect × TcpConnection)
  | .connectEstablished => c.connectEstablished
  | .send message result => c.send message result
  | .beginSend message =>
    some ([], if c.state = .kConnected then { c with sending := c.sending ++ [message] } else c)
  | .endSend i =>
    match c.sending[i]? with
    | none => some ([], c)
    | some message =>
      some ([], { c.queueInLoop [.sendInLoop message] with sending := c.sending.eraseIdx i })
  | .shutdown =>
    some (if c.state = .kConnected then
      (c.shutdownInLoop, { c with state := .kDisconnecting }) else ([], c))
  | .shutdownElsewhere =>
    some ([], if c.state = .kConnected then
      { c.queueInLoop [.shutdownInLoop] with state := .kDisconnecting } else c)
  | .forceClose =>
    some ([], if c.isOpen then
      { c.queueInLoop [.forceCloseInLoop] with state := .kDisconnecting } else c)
  | .forceCloseWithDelay =>
    some ([], if c.isOpen then { c with state := .kDisconnecting } else c)
  | .take len =>
    (c.inputBuffer.retrieve len).map fun inputBuffer =>
      ([.taken (c.inputBuffer.content.take len)], { c with inputBuffer })
  | .poll revents => some ([], if c.phases = [] then { c with phases := revents.phases } else c)
  | .handle arrived result =>
    match c.phases with
    | [] => some ([], c)
    | phase :: phases => handle { c with phases } phase arrived result
  | .run result =>
    match c.pending with
    | [] => some ([], c)
    | f :: pending => run { c with pending } f result

end TcpConnection

end Net

end GraduationServer
