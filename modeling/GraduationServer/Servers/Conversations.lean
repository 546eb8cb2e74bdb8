import GraduationServer.Client.Delimited
import GraduationServer.Net.TcpServer

/-!
# Conversations on the network

The client server (`IMServer`) on its connections: `ClientSession::OnRead` takes all that is in the input
buffer of its connection as one message, has it handled (`Process`), and the handler sends its replies on
the same connection, one call of `send` for each. All connections share the loop and the caches, and their
events come in any order.

In every run the sessions answer what they are asked as if there were no network between
(`ChatServer.served`), and what a client has on its connection are replies to that client, each of them
whole and in order (`ChatServer.replies_delivered`).
-/

namespace GraduationServer

open Net Json

/-! ## The server -/

/-- What a handler sends for a reply. -/
def Reply.text (r : Reply) : Bytes :=
  if r.crlf then Writer.write r.json ++ ascii "\r\n" else Writer.write r.json

theorem sentBytes_append (replies replies' : List Reply) :
    sentBytes (replies ++ replies') = sentBytes replies ++ sentBytes replies' := by
  rw [sentBytes, List.map_append, stream, List.flatMap_append]
  rfl

theorem sentBytes_singleton (r : Reply) : sentBytes [r] = r.text := by
  rw [sentBytes, List.map_singleton, stream, List.flatMap_singleton, pieceBytes, Reply.piece, Reply.text]
  dsimp only
  split
  · rfl
  · rw [List.append_nil]

/-- What happens on the thread of the loop: a connection is accepted, a poll reports the events of one, the
next callback of these is called, or what the loop has kept for a connection is run. -/
inductive Occurrence
  | newConnection (address : UInt64)
  | poll (conn : Conn) (revents : Revents)
  | handle (conn : Conn) (arrived : Option Bytes) (result : WriteResult)
  | run (conn : Conn) (result : WriteResult)

/-- What happens to the connections by itself. -/
def Occurrence.input : Occurrence → ServerInput
  | .newConnection address => .newConnection address
  | .poll conn revents => .on conn (.poll revents)
  | .handle conn arrived result => .on conn (.handle arrived result)
  | .run conn result => .on conn (.run result)

/-- A turn of the loop, with what a handler takes from outside in it, and what the writes of its replies
meet. -/
structure Turn where
  occurrence : Occurrence
  surroundings : Surroundings
  results : ℕ → WriteResult

/-- A session has been asked something, and what its handler has answered. -/
structure Exchange where
  conn : Conn
  surroundings : Surroundings
  message : Bytes
  replies : List Reply

/-- What is seen of a turn. -/
structure Seen where
  effects : List (Conn × Effect)
  exchange : Option Exchange

/-- The connections, and what the sessions share. -/
structure ChatServer where
  net : TcpServer := {}
  server : Server

/-- The message callback that is called among some effects, with what is in the buffer. -/
def heard (effects : List (Conn × Effect)) : Option (Conn × Bytes) :=
  effects.findSome? fun e =>
    match e.2 with
    | .message content => some (e.1, content)
    | _ => none

/-- What a session does with its connection: it takes all that is in the buffer, and sends the replies. The
source hands the length of a reply over as an `int`, so this is what it does with replies of fewer than
`2 ^ 31` bytes. -/
def ClientSession.calls (conn : Conn) (content : Bytes) (replies : List Reply)
    (results : ℕ → WriteResult) : List ServerInput :=
  .on conn (.take content.length) ::
    replies.mapIdx fun i r => .on conn (.send r.text (results i))

namespace ChatServer

variable (name ipPort : Bytes)

/-- A turn: something happens to the connections, and when a message callback is called, `OnRead`. -/
def step (s : ChatServer) (t : Turn) : Option (Seen × ChatServer) :=
  (s.net.step name ipPort t.occurrence.input).bind fun p =>
    match heard p.1 with
    | none => some (⟨p.1, none⟩, { s with net := p.2 })
    | some (conn, content) =>
      (ClientSession.process s.server t.surroundings content).bind fun q =>
        (runs (TcpServer.step name ipPort) p.2
          (ClientSession.calls conn content q.2 t.results)).map fun r =>
            (⟨p.1 ++ r.1.flatten, some ⟨conn, t.surroundings, content, q.2⟩⟩, ⟨r.2, q.1⟩)

end ChatServer

/-! ## What is seen of a run -/

namespace ChatServer

/-- What the sessions have been asked. -/
def asked (seen : List Seen) : List (Surroundings × Bytes) :=
  seen.filterMap fun o => o.exchange.map fun x => (x.surroundings, x.message)

/-- What they have answered. -/
def answers (seen : List Seen) : List (List Reply) :=
  seen.filterMap fun o => o.exchange.map Exchange.replies

/-- The replies to the messages of a connection. -/
def repliesTo (conn : Conn) (seen : List Seen) : List Reply :=
  seen.flatMap fun o => o.exchange.elim [] fun x => if x.conn = conn then x.replies else []

/-- What has been written to a connection. -/
def writtenTo (conn : Conn) (effects : List (Conn × Effect)) : Bytes :=
  writtenBytes (effects.filterMap fun e => if e.1 = conn then some e.2 else none)

/-- The effects of a run. -/
def effectsOf (seen : List Seen) : List (Conn × Effect) := seen.flatMap Seen.effects

end ChatServer

/-! ## One connection -/

namespace Net.TcpConnection

variable {c c' : TcpConnection} {es : List Effect}

/-- A connection that has been established is not waiting for that again. -/
theorem established_step {i : ConnInput} (hc : c.state ≠ .kConnecting)
    (h : c.step i = some (es, c')) : c'.state ≠ .kConnecting := by
  cases i with
  | connectEstablished =>
    simp only [step, connectEstablished, if_neg hc] at h
    cases h
  | send message result =>
    rw [(sends_send h).same.state]
    exact hc
  | endSend j =>
    simp only [step] at h
    split at h <;> (cases h; exact hc)
  | shutdown =>
    simp only [step, Option.some.injEq] at h
    split at h <;> cases h
    · simp
    · exact hc
  | beginSend message | poll revents =>
    cases h
    split <;> exact hc
  | shutdownElsewhere | forceClose | forceCloseWithDelay =>
    cases h
    split
    · simp
    · exact hc
  | take len =>
    obtain ⟨inputBuffer, -, hpair⟩ := Option.map_eq_some_iff.1 h
    cases hpair
    exact hc
  | handle arrived result =>
    simp only [step] at h
    split at h
    · cases h
      exact hc
    · next phase phases hphases =>
      cases phase with
      | close =>
        obtain ⟨-, -, rfl⟩ := handleClose_eq_some.1 h
        simp
      | error =>
        cases h
        exact hc
      | read =>
        cases arrived with
        | none =>
          cases h
          exact hc
        | some arrived =>
          cases arrived with
          | nil =>
            obtain ⟨-, -, rfl⟩ := handleClose_eq_some.1 h
            simp
          | cons b bs =>
            cases h
            exact hc
      | write =>
        rw [(flushes_handleWrite h).same.state]
        exact hc
  | run result =>
    simp only [step] at h
    split at h
    · cases h
      exact hc
    · next f pending hpending =>
      cases f with
      | sendInLoop message =>
        rw [(sends_sendInLoop h).same.state]
        exact hc
      | shutdownInLoop | writeCompleteCallback | highWaterMarkCallback len =>
        cases h
        exact hc
      | forceCloseInLoop =>
        simp only [run] at h
        split_ifs at h
        · obtain ⟨-, -, rfl⟩ := handleClose_eq_some.1 h
          simp
        · cases h
          exact hc
      | connectDestroyed =>
        simp only [run, connectDestroyed] at h
        split_ifs at h <;> cases h
        · simp
        · exact hc

/-- **The message callback is called for what a read brings**, with all that is in the buffer behind it, and
nothing else is reported then. -/
theorem message_step {i : ConnInput} (h : c.step i = some (es, c')) :
    (∀ content, .message content ∉ es) ∨
      ∃ arrived result, i = .handle (some arrived) result ∧
        c'.inputBuffer.content = c.inputBuffer.content ++ arrived ∧
        es = [.message c'.inputBuffer.content] := by
  have hwrites : (∀ e ∈ es, (∃ d, e = .written d) ∨ e = .shutdownWrite) →
      ∀ content, .message content ∉ es := by
    intro hes content hmem
    rcases hes _ hmem with ⟨d, he⟩ | he <;> cases he
  have hclose : ∀ {d : TcpConnection}, d.handleClose = some (es, c') →
      ∀ content, .message content ∉ es := by
    intro d hd
    obtain ⟨-, rfl, -⟩ := handleClose_eq_some.1 hd
    simp
  cases i with
  | connectEstablished =>
    simp only [step, connectEstablished, Option.ite_none_right_eq_some, Option.some.injEq,
      Prod.mk.injEq] at h
    obtain ⟨-, rfl, -⟩ := h
    simp
  | send message result => exact .inl (hwrites fun e he => .inl ((sends_send h).writes e he))
  | beginSend message | poll revents | shutdownElsewhere | forceClose | forceCloseWithDelay =>
    cases h
    simp
  | endSend j =>
    simp only [step] at h
    split at h <;> (cases h; simp)
  | shutdown =>
    simp only [step, Option.some.injEq] at h
    refine .inl (hwrites fun e he => ?_)
    split at h <;> cases h
    · rw [shutdownInLoop] at he
      split at he <;> simp_all
    · cases he
  | take len =>
    obtain ⟨inputBuffer, -, hpair⟩ := Option.map_eq_some_iff.1 h
    cases hpair
    simp
  | handle arrived result =>
    simp only [step] at h
    split at h
    · cases h
      simp
    · next phase phases hphases =>
      cases phase with
      | close => exact .inl (hclose h)
      | error =>
        cases h
        simp
      | read =>
        cases arrived with
        | none =>
          cases h
          simp
        | some arrived =>
          cases arrived with
          | nil => exact .inl (hclose h)
          | cons b bs =>
            cases h
            exact .inr ⟨b :: bs, result, rfl, by simp, rfl⟩
      | write =>
        exact .inl (hwrites fun e he => ((flushes_handleWrite h).writes e he).imp_right And.left)
  | run result =>
    simp only [step] at h
    split at h
    · cases h
      simp
    · next f pending hpending =>
      cases f with
      | sendInLoop message =>
        exact .inl (hwrites fun e he => .inl ((sends_sendInLoop h).writes e he))
      | shutdownInLoop =>
        cases h
        refine .inl (hwrites fun e he => ?_)
        rw [shutdownInLoop] at he
        split at he <;> simp_all
      | writeCompleteCallback | highWaterMarkCallback len =>
        cases h
        simp
      | forceCloseInLoop =>
        simp only [run] at h
        split_ifs at h
        · exact .inl (hclose h)
        · cases h
          simp
      | connectDestroyed =>
        simp only [run, connectDestroyed] at h
        split_ifs at h <;> (cases h; simp)

/-- Without messages of other threads, only calls of `send` are accepted. -/
theorem accepted_of_alone {i : ConnInput} (hc : c.Alone) (hsend : ∀ m r, i ≠ .send m r) :
    c.accepted i = [] := by
  cases i with
  | send message result => exact absurd rfl (hsend message result)
  | run result =>
    cases hpending : c.pending with
    | nil => simp [accepted, hpending]
    | cons f pending =>
      cases f with
      | sendInLoop message => exact absurd (hpending ▸ List.mem_cons_self) (hc.pending message)
      | _ => simp [accepted, hpending]
  | _ => rfl

/-- An established connection that is connected behind a step was so before. -/
theorem connected_of_step {i : ConnInput} (hc : c.state ≠ .kConnecting) (halone : c.Alone)
    (h : c.step i = some (es, c')) (hconnected : c'.state = .kConnected) : c.state = .kConnected := by
  by_contra hne
  have hending : c.Ending := by
    cases hstate : c.state with
    | kConnecting => exact absurd hstate hc
    | kConnected => exact absurd hstate hne
    | kDisconnecting => exact .inl hstate
    | kDisconnected => exact .inr hstate
  rcases (unsent_step halone (fun _ _ _ => hne) (fun _ _ => hne) h).ending hending with hdown | hdown <;>
  · rw [hconnected] at hdown
    cases hdown

/-- What arrives is in the buffer when the message callback is called, and at no other time. -/
theorem drained_step {i : ConnInput} (hc : c.inputBuffer.content = [])
    (hnone : ∀ content, .message content ∉ es) (h : c.step i = some (es, c')) :
    c'.inputBuffer.content = [] := by
  have hreceived := received_step h
  rw [hc, List.nil_append] at hreceived
  by_cases hnil : c.received i = []
  · rw [hnil] at hreceived
    exact (List.append_eq_nil_iff.1 hreceived.symm).2
  · exfalso
    cases i with
    | handle arrived result =>
      cases arrived with
      | none => exact hnil rfl
      | some arrived =>
        cases hphases : c.phases with
        | nil => simp [received, hphases] at hnil
        | cons phase phases =>
          simp only [received, hphases, List.head?_cons, Option.some.injEq, ite_eq_right_iff,
            Classical.not_imp] at hnil
          obtain ⟨rfl, hne⟩ := hnil
          obtain ⟨b, bs, rfl⟩ := List.exists_cons_of_ne_nil hne
          simp only [step, hphases] at h
          cases h
          exact hnone _ List.mem_cons_self
    | _ => exact hnil rfl

/-- A connection carries replies: what has been written and what it keeps are some of the replies that its
session has sent, and all of them when no write has met a broken connection and it is still up. -/
structure Carries (whole : Prop) (c : TcpConnection) (written : Bytes) (sent replies : List Reply) :
    Prop where
  established : c.state ≠ .kConnecting
  alone : c.Alone
  stream : written ++ c.outputBuffer.content = sentBytes sent
  complete : whole → c.state = .kConnected → sent = replies

variable {whole : Prop} {written : Bytes} {sent replies : List Reply}

/-- A step without a reply. -/
theorem Carries.quiet (hc : c.Carries whole written sent replies) {i : ConnInput}
    (hsend : ∀ m r, i ≠ .send m r) (hbegin : ∀ m, i ≠ .beginSend m) (h : c.step i = some (es, c')) :
    c'.Carries whole (written ++ writtenBytes es) sent replies where
  established := established_step hc.established h
  alone := alone_step hc.alone hbegin h
  stream := by
    have hstream := stream_step h
    rw [accepted_of_alone hc.alone hsend, List.append_nil] at hstream
    rw [List.append_assoc, ← hstream, hc.stream]
  complete hwhole hconnected :=
    hc.complete hwhole (connected_of_step hc.established hc.alone h hconnected)

/-- **A reply is sent**: it is carried whole, or not at all when a write meets a broken connection or the
connection is not up any more. -/
theorem Carries.send (hc : c.Carries whole written sent replies) {r : Reply} {result : WriteResult}
    (hresult : whole → result ≠ .broken) (h : c.step (.send r.text result) = some (es, c')) :
    ∃ sent', (sent' = sent ∨ sent' = sent ++ [r]) ∧
      c'.Carries whole (written ++ writtenBytes es) sent' (replies ++ [r]) := by
  have hstream := stream_step h
  have hestablished := established_step hc.established h
  have halone := alone_step hc.alone (by simp) h
  have hconnected := connected_of_step hc.established hc.alone h
  by_cases haccepted : c.state = .kConnected ∧ ¬ (c.writesDirectly ∧ result = .broken)
  · have hall : c.accepted (.send r.text result) = r.text := by
      rw [accepted, if_pos haccepted.1, acceptedInLoop, if_neg]
      rintro (hdown | hbroken)
      · rw [haccepted.1] at hdown
        cases hdown
      · exact haccepted.2 hbroken
    refine ⟨sent ++ [r], .inr rfl, hestablished, halone, ?_, fun hwhole hstate => ?_⟩
    · rw [List.append_assoc, ← hstream, hall, ← List.append_assoc, hc.stream, sentBytes_append,
        sentBytes_singleton]
    · rw [hc.complete hwhole (hconnected hstate)]
  · have hnone : c.accepted (.send r.text result) = [] := by
      rw [accepted]
      split
      · next hstate =>
        rw [acceptedInLoop, if_pos (.inr (not_not.1 fun hb => haccepted ⟨hstate, hb⟩))]
      · rfl
    refine ⟨sent, .inl rfl, hestablished, halone, ?_, fun hwhole hstate => ?_⟩
    · rw [List.append_assoc, ← hstream, hnone, List.append_nil, hc.stream]
    · exact absurd ⟨hconnected hstate, fun hb => hresult hwhole hb.2⟩ haccepted

end Net.TcpConnection

/-! ## The connections of the server -/

namespace ChatServer

variable {conn d : Conn} {es : List Effect} {effects effects' : List (Conn × Effect)}

theorem writtenTo_append :
    writtenTo d (effects ++ effects') = writtenTo d effects ++ writtenTo d effects' := by
  rw [writtenTo, List.filterMap_append, writtenBytes_append]
  rfl

theorem writtenTo_map_self : writtenTo conn (es.map (conn, ·)) = writtenBytes es := by
  simp [writtenTo, List.filterMap_map]

theorem writtenTo_map_of_ne (h : conn ≠ d) : writtenTo d (es.map (conn, ·)) = [] := by
  simp [writtenTo, List.filterMap_map, h]

end ChatServer

namespace Net.TcpServer

open ChatServer

variable {name ipPort : Bytes} {s s' : TcpServer} {conn d : Conn} {effects : List (Conn × Effect)}

theorem lookup_map_update (conns : List (Conn × TcpConnection)) (c' : TcpConnection) :
    (conns.map fun q => if q.1 = conn then (conn, c') else q).lookup d =
      if d = conn then (conns.lookup conn).map fun _ => c' else conns.lookup d := by
  induction conns with
  | nil => simp
  | cons q conns ih =>
    obtain ⟨e, c⟩ := q
    by_cases he : e = conn
    · subst he
      by_cases hd : d = e
      · simp [hd]
      · simpa [List.lookup_cons, hd, beq_false_of_ne hd] using ih
    · by_cases hd : d = e
      · subst hd
        simp [he]
      · by_cases hdc : d = conn
        · subst hdc
          simpa [List.lookup_cons, he, beq_false_of_ne hd] using ih
        · simpa [List.lookup_cons, he, hdc, beq_false_of_ne hd] using ih

theorem lookup_filter_ne (conns : List (Conn × TcpConnection)) :
    (conns.filter fun q => q.1 ≠ conn).lookup d = if d = conn then none else conns.lookup d := by
  induction conns with
  | nil => simp
  | cons q conns ih =>
    obtain ⟨e, c⟩ := q
    by_cases he : e = conn
    · subst he
      by_cases hd : d = e
      · simpa [hd] using ih
      · simpa [List.lookup_cons, hd, beq_false_of_ne hd] using ih
    · by_cases hd : d = e
      · subst hd
        simp [he]
      · simpa [List.lookup_cons, he, beq_false_of_ne hd] using ih

/-- Something happens to a connection that the server does not have, and nothing comes of it; or to one that
it has, which takes a step, and the others are as they were. -/
theorem of_step_on {i : ConnInput} (h : s.step name ipPort (.on conn i) = some (effects, s')) :
    (s.conns.lookup conn = none ∧ effects = [] ∧ s' = s) ∨
      ∃ c es c', s.conns.lookup conn = some c ∧ c.step i = some (es, c') ∧
        effects = es.map (conn, ·) ∧ s'.nextConnId = s.nextConnId ∧
        (∀ d, d ≠ conn → s'.conns.lookup d = s.conns.lookup d) ∧
        s'.conns.lookup conn = if c.IsDestroyedBy i then none else some c' := by
  cases hlookup : s.conns.lookup conn with
  | none =>
    simp only [step, hlookup] at h
    cases h
    exact .inl ⟨rfl, rfl, rfl⟩
  | some c =>
    simp only [step, hlookup] at h
    obtain ⟨⟨es, c'⟩, hstep, h⟩ := Option.bind_eq_some_iff.1 h
    obtain ⟨connections, -, hpair⟩ := Option.map_eq_some_iff.1 h
    cases hpair
    refine .inr ⟨c, es, c', rfl, hstep, rfl, rfl, fun d hd => ?_, ?_⟩
    · dsimp only
      split
      · rw [lookup_filter_ne, if_neg hd]
      · rw [lookup_map_update, if_neg hd]
    · dsimp only
      split
      · rw [lookup_filter_ne, if_pos rfl]
      · rw [lookup_map_update, if_pos rfl, hlookup]
        rfl

/-- A connection is accepted. -/
theorem of_step_newConnection {address : UInt64}
    (h : s.step name ipPort (.newConnection address) = some (effects, s')) :
    effects = [(⟨s.nextConnId, address⟩, .connection true)] ∧
      s'.nextConnId = s.nextConnId + 1 ∧
      s'.conns = (⟨s.nextConnId, address⟩,
        { state := .kConnected, isReading := true, addedToLoop := true }) :: s.conns := by
  cases h
  exact ⟨rfl, rfl, rfl⟩

/-- What a connection has of the replies to it: some of them, each of them whole and in order, of which only
the last may have been written in part. A connection that has not been accepted has none. -/
structure Delivers (whole : Prop) (d : Conn) (s : TcpServer) (written : Bytes) (replies : List Reply) :
    Prop where
  fresh : s.nextConnId ≤ d.id → s.conns.lookup d = none ∧ written = [] ∧ replies = []
  carries : ∃ sent, sent.Sublist replies ∧ written <+: sentBytes sent ∧
    ∀ c, s.conns.lookup d = some c → c.Carries whole written sent replies

variable {whole : Prop} {written : Bytes} {replies : List Reply}

theorem delivers_new : Delivers whole d {} [] [] where
  fresh _ := ⟨rfl, rfl, rfl⟩
  carries := ⟨[], .slnil, List.nil_prefix, by simp⟩

theorem Delivers.newConnection (hd : s.Delivers whole d written replies) {address : UInt64}
    (h : s.step name ipPort (.newConnection address) = some (effects, s')) :
    s'.Delivers whole d (written ++ writtenTo d effects) replies := by
  obtain ⟨rfl, hnext, hconns⟩ := of_step_newConnection h
  have hwritten : writtenTo d [((⟨s.nextConnId, address⟩ : Conn), Effect.connection true)] = [] := by
    by_cases hself : (⟨s.nextConnId, address⟩ : Conn) = d <;> simp [writtenTo, writtenBytes, hself]
  rw [hwritten, List.append_nil]
  by_cases hself : d = ⟨s.nextConnId, address⟩
  · obtain ⟨-, rfl, rfl⟩ := hd.fresh (by rw [hself])
    refine ⟨fun hle => ?_, [], .slnil, List.nil_prefix, fun c hc => ?_⟩
    · rw [hnext, hself] at hle
      exact absurd hle (Nat.not_succ_le_self _)
    · rw [hconns, hself, List.lookup_cons_self] at hc
      cases hc
      exact ⟨by simp, ⟨rfl, by simp, by simp⟩, rfl, fun _ _ => rfl⟩
  · have hlookup : s'.conns.lookup d = s.conns.lookup d := by
      rw [hconns, List.lookup_cons, beq_false_of_ne hself]
    obtain ⟨sent, hsub, hwritten, hcarries⟩ := hd.carries
    refine ⟨fun hle => ?_, sent, hsub, hwritten, fun c hc => hcarries c (hlookup ▸ hc)⟩
    rw [hnext] at hle
    rw [hlookup]
    exact hd.fresh (Nat.le_of_succ_le hle)

/-- Something that is no call of `send` happens to a connection. -/
theorem Delivers.on (hd : s.Delivers whole d written replies) {i : ConnInput}
    (hsend : ∀ m r, i ≠ .send m r) (hbegin : ∀ m, i ≠ .beginSend m)
    (h : s.step name ipPort (.on conn i) = some (effects, s')) :
    s'.Delivers whole d (written ++ writtenTo d effects) replies := by
  rcases of_step_on h with ⟨-, rfl, rfl⟩ | ⟨c, es, c', hlookup, hstep, rfl, hnext, hothers, hself⟩
  · simpa [writtenTo, writtenBytes] using hd
  · obtain ⟨sent, hsub, hwritten, hcarries⟩ := hd.carries
    by_cases hconn : conn = d
    · subst hconn
      have hc := (hcarries c hlookup).quiet hsend hbegin hstep
      rw [writtenTo_map_self]
      refine ⟨fun hle => ?_, sent, hsub, ⟨_, hc.stream⟩, fun c'' hc'' => ?_⟩
      · rw [(hd.fresh (hnext ▸ hle)).1] at hlookup
        cases hlookup
      · rw [hself] at hc''
        split at hc''
        · cases hc''
        · cases hc''
          exact hc
    · have hsame := hothers d (Ne.symm hconn)
      rw [writtenTo_map_of_ne hconn, List.append_nil]
      exact ⟨fun hle => hsame ▸ hd.fresh (hnext ▸ hle), sent, hsub, hwritten,
        fun c hc => hcarries c (hsame ▸ hc)⟩

/-- **A reply is sent on a connection that has been accepted.** -/
theorem Delivers.send (hd : s.Delivers whole d written replies) {r : Reply} {result : WriteResult}
    (hresult : whole → result ≠ .broken) (haccepted : conn.id < s.nextConnId)
    (h : s.step name ipPort (.on conn (.send r.text result)) = some (effects, s')) :
    s'.nextConnId = s.nextConnId ∧ s'.Delivers whole d (written ++ writtenTo d effects)
      (replies ++ if conn = d then [r] else []) := by
  obtain ⟨sent, hsub, hwritten, hcarries⟩ := hd.carries
  rcases of_step_on h with ⟨hnone, rfl, rfl⟩ | ⟨c, es, c', hlookup, hstep, rfl, hnext, hothers, hself⟩
  · refine ⟨rfl, ?_⟩
    rw [show writtenTo d [] = [] from rfl, List.append_nil]
    by_cases hconn : conn = d
    · subst hconn
      rw [if_pos rfl]
      exact ⟨fun hle => absurd haccepted (Nat.not_lt.2 hle), sent,
        hsub.trans (List.sublist_append_left _ _), hwritten, by simp [hnone]⟩
    · rwa [if_neg hconn, List.append_nil]
  · refine ⟨hnext, ?_⟩
    by_cases hconn : conn = d
    · subst hconn
      obtain ⟨sent', hsent', hc⟩ := (hcarries c hlookup).send hresult hstep
      rw [writtenTo_map_self, if_pos rfl]
      refine ⟨fun hle => absurd haccepted (Nat.not_lt.2 (hnext ▸ hle)), sent', ?_, ⟨_, hc.stream⟩,
        fun c'' hc'' => ?_⟩
      · rcases hsent' with rfl | rfl
        · exact hsub.trans (List.sublist_append_left _ _)
        · exact hsub.append (List.Sublist.refl _)
      · rw [hself] at hc''
        split at hc''
        · cases hc''
        · cases hc''
          exact hc
    · have hsame := hothers d (Ne.symm hconn)
      rw [writtenTo_map_of_ne hconn, List.append_nil, if_neg hconn, List.append_nil]
      exact ⟨fun hle => hsame ▸ hd.fresh (hnext ▸ hle), sent, hsub, hwritten,
        fun c hc => hcarries c (hsame ▸ hc)⟩

/-- All replies of a handler are sent. -/
theorem Delivers.sends (hd : s.Delivers whole d written replies) {rs : List Reply}
    {results : ℕ → WriteResult} (hresults : whole → ∀ i, results i ≠ .broken)
    (haccepted : conn.id < s.nextConnId) {out : List (List (Conn × Effect))}
    (h : runs (step name ipPort) s (rs.mapIdx fun i r => .on conn (.send r.text (results i))) =
      some (out, s')) :
    s'.Delivers whole d (written ++ writtenTo d out.flatten)
      (replies ++ if conn = d then rs else []) := by
  induction rs generalizing s written replies results out with
  | nil =>
    cases h
    simpa [writtenTo, writtenBytes] using hd
  | cons r rs ih =>
    rw [List.mapIdx_cons] at h
    obtain ⟨effects, t, out', hstep, hrest, rfl⟩ := runs_cons_eq_some.1 h
    obtain ⟨hnext, ht⟩ := hd.send (fun hwhole => hresults hwhole 0) haccepted hstep
    have hrun := ih ht (fun hwhole i => hresults hwhole (i + 1)) (hnext ▸ haccepted) hrest
    rw [List.flatten_cons, writtenTo_append, ← List.append_assoc]
    convert hrun using 1
    rw [List.append_assoc]
    split <;> simp

end Net.TcpServer

/-! ## Turns -/

namespace ChatServer

open Net.TcpServer

variable {name ipPort : Bytes} {s s' : ChatServer} {net : TcpServer} {t : Turn} {o : Seen}
  {conn d : Conn} {content : Bytes} {effects : List (Conn × Effect)} {es : List Effect}

theorem heard_map_of_notMem (h : ∀ content, Effect.message content ∉ es) :
    heard (es.map (conn, ·)) = none := by
  rw [heard, List.findSome?_map, List.findSome?_eq_none_iff]
  intro e he
  cases e with
  | message content => exact absurd he (h content)
  | _ => rfl

/-- **A message callback is called for what a read brings.** -/
theorem heard_step (h : net.step name ipPort t.occurrence.input = some (effects, s.net))
    (hheard : heard effects = some (conn, content)) :
    ∃ c c' arrived result, t.occurrence = .handle conn (some arrived) result ∧
      net.conns.lookup conn = some c ∧ s.net.conns.lookup conn = some c' ∧
      content = c.inputBuffer.content ++ arrived ∧ c'.inputBuffer.content = content ∧
      effects = [(conn, .message content)] ∧ s.net.nextConnId = net.nextConnId ∧
      ∀ d, d ≠ conn → s.net.conns.lookup d = net.conns.lookup d := by
  have hon : ∀ {conn' : Conn} {i : ConnInput}, net.step name ipPort (.on conn' i) = some (effects, s.net) →
      ∃ c c' arrived result, i = .handle (some arrived) result ∧ conn' = conn ∧
        net.conns.lookup conn = some c ∧ s.net.conns.lookup conn = some c' ∧
        content = c.inputBuffer.content ++ arrived ∧ c'.inputBuffer.content = content ∧
        effects = [(conn, .message content)] ∧ s.net.nextConnId = net.nextConnId ∧
        ∀ d, d ≠ conn → s.net.conns.lookup d = net.conns.lookup d := by
    intro conn' i hstep
    rcases of_step_on hstep with ⟨-, rfl, -⟩ | ⟨c, es, c', hlookup, hc, rfl, hnext, hothers, hself⟩
    · cases hheard
    · rcases TcpConnection.message_step hc with hnone | ⟨arrived, result, rfl, hbuffer, rfl⟩
      · rw [heard_map_of_notMem hnone] at hheard
        cases hheard
      · cases hheard
        exact ⟨c, c', arrived, result, rfl, rfl, hlookup, hself.trans (if_neg id), hbuffer, rfl, rfl,
          hnext, hothers⟩
  cases hoccurrence : t.occurrence with
  | newConnection address =>
    rw [hoccurrence] at h
    obtain ⟨rfl, -, -⟩ := of_step_newConnection h
    cases hheard
  | poll conn' revents =>
    rw [hoccurrence] at h
    obtain ⟨_, _, _, _, hi, -⟩ := hon h
    cases hi
  | run conn' result =>
    rw [hoccurrence] at h
    obtain ⟨_, _, _, _, hi, -⟩ := hon h
    cases hi
  | handle conn' arrived' result' =>
    rw [hoccurrence] at h
    obtain ⟨c, c', arrived, result, hi, rfl, hrest⟩ := hon h
    cases hi
    exact ⟨c, c', arrived, _, rfl, hrest⟩

/-- What a turn is: something happens to the connections, and a session may be asked something. -/
theorem step_cases (h : s.step name ipPort t = some (o, s')) :
    (s.net.step name ipPort t.occurrence.input = some (o.effects, s'.net) ∧ heard o.effects = none ∧
      o.exchange = none ∧ s'.server = s.server) ∨
    ∃ effects net x out, s.net.step name ipPort t.occurrence.input = some (effects, net) ∧
      heard effects = some (x.conn, x.message) ∧ x.surroundings = t.surroundings ∧
      ClientSession.process s.server x.surroundings x.message = some (s'.server, x.replies) ∧
      runs (TcpServer.step name ipPort) net
        (ClientSession.calls x.conn x.message x.replies t.results) = some (out, s'.net) ∧
      o = ⟨effects ++ out.flatten, some x⟩ := by
  obtain ⟨⟨effects, net⟩, hstep, h⟩ := Option.bind_eq_some_iff.1 h
  dsimp only at h
  cases hheard : heard effects with
  | none =>
    rw [hheard] at h
    cases h
    exact .inl ⟨hstep, hheard, rfl, rfl⟩
  | some p =>
    obtain ⟨conn, content⟩ := p
    rw [hheard] at h
    obtain ⟨⟨server, replies⟩, hprocess, h⟩ := Option.bind_eq_some_iff.1 h
    obtain ⟨⟨out, net'⟩, hrun, hpair⟩ := Option.map_eq_some_iff.1 h
    cases hpair
    exact .inr ⟨effects, net, ⟨conn, t.surroundings, content, replies⟩, out, hstep, hheard, rfl,
      hprocess, hrun, rfl⟩

/-! ## What the sessions answer -/

/-- **The sessions answer as if there were no network between**: what they have answered is what they
answer to the messages in the order in which the message callbacks have been called. -/
theorem served {is : List Turn} {out : List Seen} (h : runs (step name ipPort) s is = some (out, s')) :
    ClientSession.serve s.server (asked out) = some (s'.server, answers out) := by
  induction is generalizing s out with
  | nil =>
    cases h
    rfl
  | cons t is ih =>
    obtain ⟨o, u, out', hstep, hrest, rfl⟩ := runs_cons_eq_some.1 h
    have hserve := ih hrest
    rcases step_cases hstep with ⟨-, -, hnone, hserver⟩ |
      ⟨effects, net, x, outs, -, -, -, hprocess, -, rfl⟩
    · rw [asked, List.filterMap_cons_none (by rw [hnone]; rfl), answers,
        List.filterMap_cons_none (by rw [hnone]; rfl), ← hserver]
      exact hserve
    · unfold asked answers at hserve ⊢
      simp only [List.filterMap_cons, Option.map_some]
      rw [ClientSession.serve, hprocess]
      dsimp only [Option.bind_eq_bind, Option.bind_some]
      rw [hserve]
      rfl

/-! ## What a client gets -/

theorem repliesTo_cons (o : Seen) (seen : List Seen) :
    repliesTo d (o :: seen) = repliesTo d [o] ++ repliesTo d seen := by
  simp [repliesTo]

theorem effectsOf_cons (o : Seen) (seen : List Seen) :
    effectsOf (o :: seen) = o.effects ++ effectsOf seen :=
  List.flatMap_cons

variable {whole : Prop} {written : Conn → Bytes} {replies : Conn → List Reply}

/-- What happens to the connections by itself brings no reply. -/
theorem delivers_input {written : Bytes} {replies : List Reply}
    (hd : net.Delivers whole d written replies)
    (h : net.step name ipPort t.occurrence.input = some (effects, s.net)) :
    s.net.Delivers whole d (written ++ writtenTo d effects) replies := by
  cases hoccurrence : t.occurrence with
  | newConnection address =>
    rw [hoccurrence] at h
    exact hd.newConnection h
  | poll conn revents | handle conn arrived result | run conn result =>
    rw [hoccurrence] at h
    exact hd.on (by simp) (by simp) h

/-- **A turn delivers the replies to whom the message was from.** -/
theorem delivers_step (hs : ∀ d, s.net.Delivers whole d (written d) (replies d))
    (hresults : whole → ∀ i, t.results i ≠ .broken) (h : s.step name ipPort t = some (o, s')) (d : Conn) :
    s'.net.Delivers whole d (written d ++ writtenTo d o.effects) (replies d ++ repliesTo d [o]) := by
  rcases step_cases h with ⟨hstep, -, hnone, -⟩ |
    ⟨effects, net, x, out, hstep, hheard, -, -, hrun, rfl⟩
  · rw [repliesTo, List.flatMap_singleton, hnone, Option.elim_none, List.append_nil]
    exact delivers_input (hs d) hstep
  · have hinput : net.Delivers whole d (written d ++ writtenTo d effects) (replies d) :=
      delivers_input (s := ⟨net, s.server⟩) (hs d) hstep
    obtain ⟨c, -, -, -, -, hlookup, -, -, -, -, hnext, -⟩ :=
      heard_step (s := ⟨net, s.server⟩) hstep hheard
    have haccepted : x.conn.id < net.nextConnId := by
      by_contra hle
      rw [((hs x.conn).fresh (Nat.not_lt.1 (hnext ▸ hle))).1] at hlookup
      cases hlookup
    -- the session takes the message, and then its handler sends the replies
    obtain ⟨effects', net', out', htake, hsends, rfl⟩ := runs_cons_eq_some.1 hrun
    have htaken := hinput.on (by simp) (by simp) htake
    have hnext' : net'.nextConnId = net.nextConnId := by
      rcases of_step_on htake with ⟨-, -, rfl⟩ | ⟨_, _, _, -, -, -, hnext', -⟩
      · rfl
      · exact hnext'
    have hall := htaken.sends hresults (hnext' ▸ haccepted) hsends
    rw [repliesTo, List.flatMap_singleton, Option.elim_some, List.flatten_cons, writtenTo_append,
      writtenTo_append]
    simpa only [List.append_assoc] using hall

theorem delivers_run {is : List Turn} {out : List Seen}
    (hs : ∀ d, s.net.Delivers whole d (written d) (replies d))
    (hresults : whole → ∀ t ∈ is, ∀ i, t.results i ≠ .broken)
    (h : runs (step name ipPort) s is = some (out, s')) (d : Conn) :
    s'.net.Delivers whole d (written d ++ writtenTo d (effectsOf out)) (replies d ++ repliesTo d out) := by
  induction is generalizing s written replies out with
  | nil =>
    cases h
    simpa [writtenTo, writtenBytes, effectsOf, repliesTo] using hs d
  | cons t is ih =>
    obtain ⟨o, u, out', hstep, hrest, rfl⟩ := runs_cons_eq_some.1 h
    have hu := delivers_step hs (fun hwhole => hresults hwhole t List.mem_cons_self) hstep
    have hrun := ih hu (fun hwhole t ht => hresults hwhole t (List.mem_cons_of_mem _ ht)) hrest
    rw [effectsOf_cons, writtenTo_append, repliesTo_cons, ← List.append_assoc, ← List.append_assoc]
    exact hrun

/-- No write of a reply meets a broken connection. -/
def Unbroken (is : List Turn) : Prop := ∀ t ∈ is, ∀ i, t.results i ≠ .broken

/-- **What a client gets.** After every run, the sessions have answered as if there were no network between,
in the order in which the message callbacks were called. What has been written to a connection and then its
output buffer are replies to the messages of this connection, each of them whole and in order, and nothing
else, whatever the other clients do in between. They are all of these replies while the connection is up and
no write has met a broken one. When the connection is gone, what has been written is a beginning of such
replies. -/
theorem replies_delivered {server : Server} {is : List Turn} {out : List Seen}
    (h : runs (step name ipPort) ⟨{}, server⟩ is = some (out, s)) :
    ClientSession.serve server (asked out) = some (s.server, answers out) ∧
      ∀ conn, ∃ sent : List Reply, sent.Sublist (repliesTo conn out) ∧
        writtenTo conn (effectsOf out) <+: sentBytes sent ∧
        ∀ c, s.net.conns.lookup conn = some c →
          writtenTo conn (effectsOf out) ++ c.outputBuffer.content = sentBytes sent ∧
          (Unbroken is → c.state = .kConnected → sent = repliesTo conn out) := by
  refine ⟨served h, fun conn => ?_⟩
  have hnew : ∀ d, ({} : TcpServer).Delivers (Unbroken is) d ((fun _ => []) d) ((fun _ => []) d) :=
    fun _ => delivers_new
  have hrun := delivers_run hnew id h conn
  obtain ⟨sent, hsub, hwritten, hcarries⟩ := hrun.carries
  exact ⟨sent, hsub, hwritten, fun c hc => ⟨(hcarries c hc).stream, (hcarries c hc).complete⟩⟩

/-! ## What a session is asked -/

/-- A session takes all that is in the input buffer: nothing is left behind a turn. -/
def Drained (net : TcpServer) : Prop :=
  ∀ conn c, net.conns.lookup conn = some c → c.inputBuffer.content = []

/-- The buffers behind a step of a connection, when the others are empty and its own one is then. -/
theorem drained_of_step {net net' : TcpServer} {i : ConnInput}
    (hothers : ∀ d c, d ≠ conn → net.conns.lookup d = some c → c.inputBuffer.content = [])
    (hself : ∀ c es c', net.conns.lookup conn = some c → c.step i = some (es, c') →
      effects = es.map (conn, ·) → c'.inputBuffer.content = [])
    (h : net.step name ipPort (.on conn i) = some (effects, net')) : Drained net' := by
  intro d c hc
  rcases of_step_on h with ⟨hnone, -, rfl⟩ | ⟨c₀, es, c₁, hlookup, hstep, heffects, -, hsame, hconn⟩
  · refine hothers d c ?_ hc
    rintro rfl
    rw [hnone] at hc
    cases hc
  · by_cases hd : d = conn
    · subst hd
      rw [hconn] at hc
      split at hc
      · cases hc
      · cases hc
        exact hself c₀ es c hlookup hstep heffects
    · exact hothers d c hd (hsame d hd ▸ hc)

theorem heard_eq_none (h : heard (es.map (conn, ·)) = none) (content : Bytes) :
    .message content ∉ es := by
  rw [heard, List.findSome?_map, List.findSome?_eq_none_iff] at h
  intro hmem
  cases h _ hmem

theorem drained_input (hs : Drained net) (hnone : heard effects = none)
    (h : net.step name ipPort t.occurrence.input = some (effects, s.net)) : Drained s.net := by
  have hon : ∀ {conn : Conn} {i : ConnInput},
      net.step name ipPort (.on conn i) = some (effects, s.net) → Drained s.net := by
    intro conn i hstep
    refine drained_of_step (fun d c _ hc => hs d c hc) (fun c es c' hc hstep' heffects => ?_) hstep
    subst heffects
    exact TcpConnection.drained_step (hs conn c hc) (heard_eq_none hnone) hstep'
  cases hoccurrence : t.occurrence with
  | newConnection address =>
    rw [hoccurrence] at h
    obtain ⟨-, -, hconns⟩ := of_step_newConnection h
    intro d c hc
    rw [hconns, List.lookup_cons] at hc
    split at hc
    · cases hc
      rfl
    · exact hs d c hc
  | poll conn revents | handle conn arrived result | run conn result =>
    rw [hoccurrence] at h
    exact hon h

/-- Sending replies leaves the input buffers as they are. -/
theorem drained_sends {net net' : TcpServer} {rs : List Reply} {results : ℕ → WriteResult}
    {out : List (List (Conn × Effect))} (hs : Drained net)
    (h : runs (TcpServer.step name ipPort) net
      (rs.mapIdx fun i r => .on conn (.send r.text (results i))) = some (out, net')) : Drained net' := by
  induction rs generalizing net results out with
  | nil =>
    cases h
    exact hs
  | cons r rs ih =>
    rw [List.mapIdx_cons] at h
    obtain ⟨effects, net₁, out', hstep, hrest, -⟩ := runs_cons_eq_some.1 h
    refine ih (drained_of_step (fun d c _ hc => hs d c hc) (fun c es c' hc hsend _ => ?_) hstep) hrest
    rw [(TcpConnection.sends_send hsend).same.inputBuffer]
    exact hs conn c hc

/-- In a turn, a session is asked at most what has arrived in a read of its connection. -/
def AsksRead (t : Turn) (o : Seen) : Prop :=
  ∀ x, o.exchange = some x → ∃ result, t.occurrence = .handle x.conn (some x.message) result

/-- **A session is asked what one read has brought**, and leaves nothing of it in the buffer. -/
theorem drained_turn (hs : Drained s.net) (h : s.step name ipPort t = some (o, s')) :
    Drained s'.net ∧ AsksRead t o := by
  rcases step_cases h with ⟨hstep, hnone, hexchange, -⟩ |
    ⟨effects, net, x, out, hstep, hheard, -, -, hrun, rfl⟩
  · refine ⟨drained_input hs hnone hstep, fun x hx => ?_⟩
    rw [hexchange] at hx
    cases hx
  · obtain ⟨c, c', arrived, result, hoccurrence, hc, hc', hmessage, hcontent, -, -, hothers⟩ :=
      heard_step (s := ⟨net, s.server⟩) hstep hheard
    rw [hs _ _ hc, List.nil_append] at hmessage
    refine ⟨?_, ?_⟩
    · obtain ⟨effects', net', out', htake, hsends, -⟩ := runs_cons_eq_some.1 hrun
      refine drained_sends (drained_of_step (fun d e hd he => hs d e (hothers d hd ▸ he))
        (fun e es e' he htake' _ => ?_) htake) hsends
      cases hc'.symm.trans he
      obtain ⟨inputBuffer, hretrieve, hpair⟩ := Option.map_eq_some_iff.1 htake'
      cases hpair
      rw [(Buffer.retrieve_eq_some hretrieve).2.1, hcontent, List.drop_length]
    · rintro _ ⟨⟩
      exact ⟨result, hmessage ▸ hoccurrence⟩

/-- **A message is what one read has brought.** In every run, a session is asked exactly what has arrived in
a read of its connection, of which nothing is kept for later: no message is joined to another, and none is
cut, behind the read. -/
theorem message_is_read {server : Server} {is : List Turn} {out : List Seen}
    (h : runs (step name ipPort) ⟨{}, server⟩ is = some (out, s)) :
    Drained s.net ∧ ∀ p ∈ is.zip out, AsksRead p.1 p.2 := by
  have hnew : Drained ({} : TcpServer) := fun d c hc => by cases hc
  refine ⟨?_, ?_⟩
  · refine runs_keeps (fun s => Drained s.net) (fun s t o s' hs hstep => ?_) hnew h
    exact (drained_turn hs hstep).1
  · refine runs_forall (fun s => Drained s.net) (fun s t o s' hs hstep => ?_) hnew h
    exact drained_turn hs hstep

/-! ## How a run ends -/

/-- What the system does is possible, also for the writes of the replies. -/
structure Possible (name ipPort : Bytes) (s : ChatServer) (t : Turn) : Prop where
  input : s.net.Possible t.occurrence.input
  results : ∀ effects net conn content server replies,
    s.net.step name ipPort t.occurrence.input = some (effects, net) →
    heard effects = some (conn, content) →
    ClientSession.process s.server t.surroundings content = some (server, replies) →
    ∀ i r, replies[i]? = some r → (t.results i).Fits r.text.length

/-- A handler throws in a turn. -/
def Throws (name ipPort : Bytes) (s : ChatServer) (t : Turn) : Prop :=
  ∃ effects net conn content, s.net.step name ipPort t.occurrence.input = some (effects, net) ∧
    heard effects = some (conn, content) ∧
    ClientSession.process s.server t.surroundings content = none

/-- The writes of the replies fit. -/
theorem possible_sends {rs : List Reply} {results : ℕ → WriteResult}
    (h : ∀ i r, rs[i]? = some r → (results i).Fits r.text.length) (net : TcpServer) :
    net.PossibleRun name ipPort (rs.mapIdx fun i r => .on conn (.send r.text (results i))) := by
  induction rs generalizing results net with
  | nil => trivial
  | cons r rs ih =>
    rw [List.mapIdx_cons]
    refine (along_cons _ _ _).2 ⟨fun _ _ => h 0 r rfl, fun net' _ => ih (fun i r hr => ?_) net'⟩
    exact h (i + 1) r hr

/-- **A possible turn ends, unless a handler throws.** -/
theorem possible_step {live : List Conn} (hs : s.net.Serves name ipPort live)
    (hpossible : Possible name ipPort s t) :
    Throws name ipPort s t ∨ ∃ o s' live', s.step name ipPort t = some (o, s') ∧
      s'.net.Serves name ipPort live' := by
  obtain ⟨effects, net, hstep, -, -, hnet⟩ := hs.serves_step hpossible.input
  cases hheard : heard effects with
  | none =>
    refine .inr ⟨⟨effects, none⟩, { s with net }, _, ?_, hnet⟩
    rw [step, hstep, Option.bind_some]
    dsimp only
    rw [hheard]
  | some p =>
    obtain ⟨conn, content⟩ := p
    cases hprocess : ClientSession.process s.server t.surroundings content with
    | none => exact .inl ⟨effects, net, conn, content, hstep, hheard, hprocess⟩
    | some q =>
      obtain ⟨server, replies⟩ := q
      obtain ⟨-, c, -, -, -, -, hc, -, hcontent, -⟩ := heard_step (s := ⟨net, s.server⟩) hstep hheard
      have hcalls : net.PossibleRun name ipPort
          (ClientSession.calls conn content replies t.results) := by
        refine (along_cons _ _ _).2 ⟨fun d hd => ?_, fun net' _ => possible_sends ?_ net'⟩
        · cases hc.symm.trans hd
          exact (congrArg List.length hcontent).ge
        · exact hpossible.results effects net conn content server replies hstep hheard hprocess
      obtain ⟨out, net', hrun, -, -, hnet'⟩ := hnet.serves_run hcalls
      refine .inr ⟨⟨effects ++ out.flatten, some ⟨conn, t.surroundings, content, replies⟩⟩,
        ⟨net', server⟩, _, ?_, hnet'⟩
      rw [step, hstep, Option.bind_some]
      dsimp only
      rw [hheard]
      dsimp only
      rw [hprocess, Option.bind_some, hrun, Option.map_some]

/-- A turn without a database, in which nothing can be written at once. -/
def quietTurn (occurrence : Occurrence) : Turn :=
  ⟨occurrence, ClientSession.quiet, fun _ => .wouldBlock⟩

/-- Two clients come up; the second one asks for all files and the first one logs in. -/
def twoClients : List Turn :=
  [.newConnection 0x7F00, .newConnection 0x7F80, .poll ⟨1, 0x7F00⟩ { pollIn := true },
    .poll ⟨2, 0x7F80⟩ { pollIn := true },
    .handle ⟨2, 0x7F80⟩ (some ClientSession.listingRequest.text) .wouldBlock,
    .handle ⟨1, 0x7F00⟩ (some ClientSession.annLogin) .wouldBlock].map quietTurn

theorem isSome_twoClients :
    (runs (step [] []) ⟨{}, ⟨smallDatabase, smallManager⟩⟩ twoClients).isSome := by
  decide +kernel

theorem replies_delivered_twoClients :
    ∃ out s, runs (step [] []) ⟨{}, ⟨smallDatabase, smallManager⟩⟩ twoClients = some (out, s) ∧
      ClientSession.serve ⟨smallDatabase, smallManager⟩ (asked out) = some (s.server, answers out) ∧
      ∀ conn, ∃ sent : List Reply, sent.Sublist (repliesTo conn out) ∧
        writtenTo conn (effectsOf out) <+: sentBytes sent ∧
        ∀ c, s.net.conns.lookup conn = some c →
          writtenTo conn (effectsOf out) ++ c.outputBuffer.content = sentBytes sent ∧
          (Unbroken twoClients → c.state = .kConnected → sent = repliesTo conn out) := by
  obtain ⟨⟨out, s⟩, h⟩ := Option.isSome_iff_exists.1 isSome_twoClients
  exact ⟨out, s, h, replies_delivered h⟩

theorem message_is_read_twoClients :
    ∃ out s, runs (step [] []) ⟨{}, ⟨smallDatabase, smallManager⟩⟩ twoClients = some (out, s) ∧
      Drained s.net ∧ ∀ p ∈ twoClients.zip out, AsksRead p.1 p.2 := by
  obtain ⟨⟨out, s⟩, h⟩ := Option.isSome_iff_exists.1 isSome_twoClients
  exact ⟨out, s, h, message_is_read h⟩

/-- A client sends a number. -/
def oneNumber : List Turn :=
  [.newConnection 0x7F00, .poll ⟨1, 0x7F00⟩ { pollIn := true },
    .handle ⟨1, 0x7F00⟩ (some (ascii "5")) .wouldBlock].map quietTurn

theorem possible_oneNumber :
    Along (fun s t => (step [] [] s t).map Prod.snd) (Possible [] []) ⟨{}, ⟨smallDatabase, smallManager⟩⟩
      oneNumber := by
  refine ⟨⟨fun p hp => ?_, fun _ _ _ _ _ _ _ _ _ _ _ _ => trivial⟩, fun s₁ h₁ => ?_⟩
  · cases hp
  cases h₁
  refine ⟨⟨fun c hc => ?_, fun _ _ _ _ _ _ _ _ _ _ _ _ => trivial⟩, fun s₂ h₂ => ?_⟩
  · cases hc
    exact ⟨rfl, rfl, rfl, by simp⟩
  cases h₂
  exact ⟨⟨fun c hc => trivial, fun _ _ _ _ _ _ _ _ _ _ _ _ => trivial⟩, fun _ _ => trivial⟩

end ChatServer

end GraduationServer
