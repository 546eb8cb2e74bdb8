import GraduationServer.Net.LifeCycle
import GraduationServer.Servers.Sessions

/-!
# The connections of a server

`TcpServer` (`net/TcpServer.h`, `net/TcpServer.cc`) in one loop, as both servers use it: a map from names
to connections, and the connections, each until it is destroyed. A new connection is established at once,
and one that closes is removed from the map at once and destroyed by the loop later.

The reports of a server to its user are legal in every run (`TcpServer.Serves.serves_run`): so what is
proved of the session tables of `IMServer` and `FileServer` under legal reports holds of the servers on the
network, whatever the system reports of the sockets and in whatever order (`TcpServer.tables_match`). And a
message callback is only called while the session that it is bound to is in the table
(`TcpServer.message_has_session`).
-/

namespace GraduationServer

namespace Net

open Registry

/-- The members of a server. A connection has the number under which it was accepted, and the address of
its object; the address may be that of an object that has been destroyed. -/
structure TcpServer where
  nextConnId : ℕ := 1
  connections : List (Bytes × Conn) := []
  conns : List (Conn × TcpConnection) := []

/-- A connection is accepted, or something happens to one. -/
inductive ServerInput
  | newConnection (address : UInt64)
  | on (conn : Conn) (input : ConnInput)

/-- The reports that a connection comes up and that it goes down. -/
def reports (effects : List (Conn × Effect)) : List (Event Conn) :=
  effects.filterMap fun e =>
    match e.2 with
    | .connection true => some (.up e.1)
    | .connection false => some (.down e.1)
    | _ => none

/-- The loop runs `connectDestroyed` of a connection. -/
def TcpConnection.IsDestroyedBy (c : TcpConnection) : ConnInput → Prop
  | .run _ => c.pending.head? = some .connectDestroyed
  | _ => False

instance (c : TcpConnection) : (i : ConnInput) → Decidable (c.IsDestroyedBy i)
  | .run _ => inferInstanceAs (Decidable (_ = _))
  | .connectEstablished | .send _ _ | .beginSend _ | .endSend _ | .shutdown | .shutdownElsewhere
  | .forceClose | .forceCloseWithDelay | .take _ | .poll _ | .handle _ _ =>
    inferInstanceAs (Decidable False)

namespace TcpServer

variable (name ipPort : Bytes)

/-- The name of a connection: that of the server, its address, and the number. -/
def connName (id : ℕ) : Bytes := name ++ ascii "-" ++ ipPort ++ ascii "#" ++ numeral 10 id

/-- `removeConnection`, when the connection calls it. The assertion is that its name is in the map. -/
def removeConnection (connections : List (Bytes × Conn)) (conn : Conn) (effects : List Effect) :
    Option (List (Bytes × Conn)) :=
  if .close ∈ effects then
    if (connections.lookup (connName name ipPort conn.id)).isSome then
      some (connections.filter fun p => p.1 ≠ connName name ipPort conn.id)
    else none
  else some connections

/-- A step of a server; `newConnection` puts a connection into the map and establishes it. A connection goes
with its last functor, `connectDestroyed`: `send` and `shutdown` of other threads bind a functor to the raw
`this`, and none of these is called behind it. -/
def step (s : TcpServer) : ServerInput → Option (List (Conn × Effect) × TcpServer)
  | .newConnection address =>
    let conn : Conn := ⟨s.nextConnId, address⟩
    (TcpConnection.step {} .connectEstablished).map fun p =>
      (p.1.map (conn, ·), {
        nextConnId := s.nextConnId + 1
        connections := (connName name ipPort conn.id, conn) ::
          s.connections.filter fun p => p.1 ≠ connName name ipPort conn.id
        conns := (conn, p.2) :: s.conns })
  | .on conn input =>
    match s.conns.lookup conn with
    | none => some ([], s)
    | some c =>
      (c.step input).bind fun p =>
        (removeConnection name ipPort s.connections conn p.1).map fun connections =>
          (p.1.map (conn, ·), { s with
            connections
            conns :=
              if c.IsDestroyedBy input then s.conns.filter fun q => q.1 ≠ conn
              else s.conns.map fun q => if q.1 = conn then (conn, p.2) else q })

/-- A new connection is at an address where no connection is, and what happens to a connection is possible
for it. -/
def Possible (s : TcpServer) : ServerInput → Prop
  | .newConnection address => ∀ p ∈ s.conns, p.1.address ≠ address
  | .on conn input => ∀ c, s.conns.lookup conn = some c → c.Possible input

end TcpServer

/-! ## One connection -/

namespace TcpConnection

variable {c c' : TcpConnection} {es : List Effect}

/-- **What an established connection reports in a step**: messages while it is up, and behind them once
that it goes down. -/
theorem Goes.cases (h : c.Goes es c') (hstate : c.state ≠ .kConnecting) :
    (c.isOpen ∧ c'.isOpen ∧ ∃ contents : List Bytes, callbacks es = contents.map .message) ∨
    (c.isOpen ∧ c'.state = .kDisconnected ∧ ∃ contents : List Bytes,
      callbacks es = contents.map .message ++ [.connection false, .close]) ∨
    (c.state = .kDisconnected ∧ c'.state = .kDisconnected ∧ callbacks es = []) := by
  by_cases hopen : c.isOpen
  · have hlived : Lived c.state [.connection true] := by
      rcases isOpen_iff.1 hopen with hs | hs <;>
      · rw [hs]
        exact ⟨[], rfl⟩
    have hafter := h.lived _ hlived
    cases hstate' : c'.state with
    | kConnecting =>
      rw [hstate'] at hafter
      cases hafter
    | kConnected | kDisconnecting =>
      rw [hstate'] at hafter
      obtain ⟨contents, hcontents⟩ := hafter
      refine .inl ⟨hopen, by simp [isOpen, hstate'], contents, ?_⟩
      simpa using hcontents
    | kDisconnected =>
      rw [hstate'] at hafter
      obtain ⟨contents, hcontents⟩ := hafter
      refine .inr (.inl ⟨hopen, rfl, contents, ?_⟩)
      simpa using hcontents
  · have hdown : c.state = .kDisconnected := by
      rw [isOpen_iff] at hopen
      cases hs : c.state <;> simp_all
    have hafter := h.lived [.connection true, .connection false, .close] (hdown ▸ ⟨[], rfl⟩)
    cases hstate' : c'.state with
    | kConnecting =>
      rw [hstate'] at hafter
      cases hafter
    | kConnected | kDisconnecting =>
      rw [hstate'] at hafter
      obtain ⟨contents, hcontents⟩ := hafter
      cases contents <;> simp at hcontents
    | kDisconnected =>
      rw [hstate'] at hafter
      obtain ⟨contents, hcontents⟩ := hafter
      refine .inr (.inr ⟨hdown, rfl, ?_⟩)
      cases contents with
      | nil => simpa using hcontents
      | cons content contents => simp at hcontents

theorem not_isOpen_of_down (h : c.state = .kDisconnected) : ¬ c.isOpen := by
  simp [isOpen, h]

/-- A connection that is down comes up no more. -/
theorem Goes.down (h : c.Goes es c') (hdown : c.state = .kDisconnected) :
    c'.state = .kDisconnected := by
  rcases h.cases (by simp [hdown]) with ⟨hopen, -⟩ | ⟨-, hdown', -⟩ | ⟨-, hdown', -⟩
  · exact absurd hopen (not_isOpen_of_down hdown)
  · exact hdown'
  · exact hdown'

/-- A connection that a step destroys is down. -/
theorem Lively.down_of_isDestroyedBy (hc : c.Lively) {i : ConnInput} (h : c.IsDestroyedBy i) :
    c.state = .kDisconnected := by
  cases i with
  | run result =>
    refine hc.destroyed ?_
    cases hpending : c.pending with
    | nil => simp [IsDestroyedBy, hpending] at h
    | cons f pending =>
      obtain rfl : f = .connectDestroyed := by simpa [IsDestroyedBy, hpending] using h
      exact List.mem_cons_self
  | _ => exact h.elim

theorem close_mem_callbacks : .close ∈ callbacks es ↔ .close ∈ es := by
  simp [callbacks]

theorem message_mem_callbacks {content : Bytes} :
    .message content ∈ callbacks es ↔ .message content ∈ es := by
  simp [callbacks]

end TcpConnection

/-! ## Reports -/

section Reports

variable {effects effects' : List (Conn × Effect)} {conn : Conn} {es : List Effect}

theorem reports_append :
    reports (effects ++ effects') = reports effects ++ reports effects' :=
  List.filterMap_append

/-- The reports of a connection are among its callbacks. -/
theorem reports_callbacks (conn : Conn) (es : List Effect) :
    reports ((TcpConnection.callbacks es).map (conn, ·)) = reports (es.map (conn, ·)) := by
  induction es with
  | nil => rfl
  | cons e es ih =>
    have hcons : ∀ l : List Effect, reports ((e :: l).map (conn, ·)) =
        reports [(conn, e)] ++ reports (l.map (conn, ·)) := fun l => by
      rw [← reports_append]
      rfl
    have hcallbacks : TcpConnection.callbacks (e :: es) =
        TcpConnection.callbacks [e] ++ TcpConnection.callbacks es :=
      TcpConnection.callbacks_append [e] es
    rw [hcons, ← ih, hcallbacks, List.map_append, reports_append]
    cases e <;> rfl

/-- Every message is for a connection that is up when it comes. -/
def Heard (live : List Conn) (effects : List (Conn × Effect)) : Prop :=
  ∀ before conn content behind, effects = before ++ (conn, .message content) :: behind →
    conn ∈ liveAfter live (reports before)

theorem heard_nil (live : List Conn) : Heard live [] := by
  intro before conn content behind h
  simp at h

theorem heard_append {live : List Conn} (h : Heard live effects)
    (h' : Heard (liveAfter live (reports effects)) effects') : Heard live (effects ++ effects') := by
  intro before conn content behind heq
  rcases List.append_eq_append_iff.1 heq with ⟨between, rfl, hbehind⟩ | ⟨between, rfl, hbefore⟩
  · rw [reports_append, liveAfter_append]
    exact h' _ _ _ _ hbehind
  · cases between with
    | nil =>
      have hfirst := h' [] conn content behind hbefore.symm
      rwa [List.append_nil] at hfirst
    | cons e between =>
      rw [List.cons_append, List.cons.injEq] at hbefore
      obtain ⟨rfl, -⟩ := hbefore
      exact h _ _ _ between rfl

theorem reports_messages (conn : Conn) (contents : List Bytes) :
    reports ((contents.map Effect.message).map (conn, ·)) = [] := by
  rw [reports, List.filterMap_eq_nil_iff]
  intro e he
  rw [List.map_map, List.mem_map] at he
  obtain ⟨content, -, rfl⟩ := he
  rfl

/-- A connection that is up hears its messages, when its other reports are behind them. -/
theorem heard_of_callbacks {live : List Conn} (hlive : conn ∈ live) {contents : List Bytes}
    {rest : List Effect} (hes : TcpConnection.callbacks es = contents.map .message ++ rest)
    (hrest : ∀ content, .message content ∉ rest) : Heard live (es.map (conn, ·)) := by
  intro before d content behind h
  obtain ⟨before', es', rfl, rfl, hmap⟩ := List.map_eq_append_iff.1 h
  obtain ⟨e, behind', rfl, he, -⟩ := List.map_eq_cons_iff.1 hmap
  rw [Prod.mk.injEq] at he
  obtain ⟨rfl, rfl⟩ := he
  rw [TcpConnection.callbacks_append] at hes
  have hfront : ∃ front : List Bytes, TcpConnection.callbacks before' = front.map .message := by
    rcases List.append_eq_append_iff.1 hes with ⟨between, hcontents, -⟩ | ⟨between, -, hbehind⟩
    · obtain ⟨front, -, -, hfront, -⟩ := List.map_eq_append_iff.1 hcontents
      exact ⟨front, hfront.symm⟩
    · refine absurd ?_ (hrest content)
      rw [hbehind]
      exact List.mem_append_right _ (by simp [TcpConnection.callbacks])
  obtain ⟨front, hfront⟩ := hfront
  rw [← reports_callbacks, hfront, reports_messages]
  exact hlive

/-- A connection that calls nobody hears nothing. -/
theorem heard_of_silent {live : List Conn} (hes : TcpConnection.callbacks es = []) :
    Heard live (es.map (conn, ·)) := by
  intro before d content behind h
  have hmem : (d, Effect.message content) ∈ es.map (conn, ·) := by
    rw [h]
    exact List.mem_append_right _ List.mem_cons_self
  obtain ⟨e, he, hpair⟩ := List.mem_map.1 hmem
  rw [Prod.mk.injEq] at hpair
  obtain ⟨-, rfl⟩ := hpair
  rw [← TcpConnection.message_mem_callbacks, hes] at he
  cases he

end Reports

/-! ## Runs of a server -/

namespace TcpServer

variable {name ipPort : Bytes} {s s' : TcpServer} {live : List Conn} {conn : Conn}
  {c c' : TcpConnection}

/-- **Connections with different numbers have different names.** -/
theorem connName_injective : Function.Injective (connName name ipPort) := by
  intro m n h
  have hdigits := congrArg (ofNumeral 10) (List.append_cancel_left h)
  rwa [ofNumeral_numeral (by decide) (by decide), ofNumeral_numeral (by decide) (by decide)] at hdigits

/-- What a server keeps: its connections have been accepted under numbers of their own, no two of them are
at one address, those that are open are live, and these are in the map. -/
structure Serves (name ipPort : Bytes) (s : TcpServer) (live : List Conn) : Prop where
  lively : ∀ p ∈ s.conns, p.2.Lively ∧ p.2.state ≠ .kConnecting
  accepted : ∀ p ∈ s.conns, p.1.id < s.nextConnId
  ids : ((s.conns.map Prod.fst).map Conn.id).Nodup
  addresses : ((s.conns.map Prod.fst).map Conn.address).Nodup
  distinct : live.Nodup
  live_iff : ∀ conn, conn ∈ live ↔ ∃ c, (conn, c) ∈ s.conns ∧ c.isOpen
  names : ∀ key conn, (key, conn) ∈ s.connections ↔ conn ∈ live ∧ key = connName name ipPort conn.id

theorem serves_new : Serves name ipPort {} [] where
  lively _ h := by cases h
  accepted _ h := by cases h
  ids := List.nodup_nil
  addresses := List.nodup_nil
  distinct := List.nodup_nil
  live_iff _ := by simp
  names _ _ := by simp

theorem Serves.mem_fst (h : s.Serves name ipPort live) (hconn : conn ∈ live) :
    conn ∈ s.conns.map Prod.fst := by
  obtain ⟨c, hc, -⟩ := (h.live_iff conn).1 hconn
  exact List.mem_map.2 ⟨_, hc, rfl⟩

/-- A connection is kept once. -/
theorem Serves.eq_of_mem (h : s.Serves name ipPort live) (hc : (conn, c) ∈ s.conns)
    (hc' : (conn, c') ∈ s.conns) : c' = c := by
  have hpair := List.inj_on_of_nodup_map (List.Nodup.of_map _ h.ids) hc' hc rfl
  rw [Prod.mk.injEq] at hpair
  exact hpair.2

theorem Serves.live_iff_isOpen (h : s.Serves name ipPort live) (hc : (conn, c) ∈ s.conns) :
    conn ∈ live ↔ c.isOpen := by
  rw [h.live_iff]
  constructor
  · rintro ⟨c', hc', hopen⟩
    rwa [h.eq_of_mem hc hc'] at hopen
  · exact fun hopen => ⟨c, hc, hopen⟩

theorem mem_of_lookup (h : s.conns.lookup conn = some c) : (conn, c) ∈ s.conns := by
  obtain ⟨front, behind, hconns, -⟩ := List.lookup_eq_some_iff.1 h
  rw [hconns]
  exact List.mem_append_right _ List.mem_cons_self

/-! ### Steps -/

/-- **A new connection is live and in the map.** -/
theorem Serves.newConnection (h : s.Serves name ipPort live) {address : UInt64}
    (hnew : s.Possible (.newConnection address)) :
    ∃ effects s', s.step name ipPort (.newConnection address) = some (effects, s') ∧
      Legal Conn.address live (reports effects) ∧ Heard live effects ∧
      s'.Serves name ipPort (liveAfter live (reports effects)) := by
  obtain ⟨es, c, hstep, hgoes⟩ := TcpConnection.lively_new.goes_step (i := .connectEstablished) rfl
  have hpair : es = [.connection true] ∧ c.state = .kConnected := by
    cases hstep
    exact ⟨rfl, rfl⟩
  obtain ⟨rfl, hstate⟩ := hpair
  have hopen : c.isOpen := TcpConnection.isOpen_iff.2 (.inl hstate)
  set conn : Conn := ⟨s.nextConnId, address⟩ with hconn
  have hfresh : ∀ d ∈ live, d.address ≠ address := by
    intro d hd
    obtain ⟨e, he, -⟩ := (h.live_iff d).1 hd
    exact hnew _ he
  have hid : ∀ d ∈ live, d.id ≠ s.nextConnId := by
    intro d hd
    obtain ⟨e, he, -⟩ := (h.live_iff d).1 hd
    exact (h.accepted _ he).ne
  have hnames : s.connections.filter (fun p => p.1 ≠ connName name ipPort s.nextConnId) =
      s.connections := by
    rw [List.filter_eq_self]
    rintro ⟨key, d⟩ hp
    obtain ⟨hd, rfl⟩ := (h.names key d).1 hp
    simpa using fun heq => hid d hd (connName_injective heq)
  have hnotMem : conn ∉ live := fun hmem => hid conn hmem rfl
  refine ⟨[(conn, .connection true)], {
    nextConnId := s.nextConnId + 1
    connections := (connName name ipPort conn.id, conn) :: s.connections
    conns := (conn, c) :: s.conns }, ?_, ⟨hfresh, trivial⟩, ?_, ⟨?_, ?_, ?_, ?_, ?_, ?_, ?_⟩⟩
  · simp only [step, hstep, Option.map_some, List.map_cons, List.map_nil, hnames, hconn]
  · intro before d content behind heq
    cases before <;> simp at heq
  · rintro p (- | ⟨_, hp⟩)
    · exact ⟨hgoes.lively, by simp [hstate]⟩
    · exact h.lively p hp
  · rintro p (- | ⟨_, hp⟩)
    · exact Nat.lt_succ_self _
    · exact (h.accepted p hp).trans (Nat.lt_succ_self _)
  · rw [List.map_cons, List.map_cons, List.nodup_cons]
    refine ⟨?_, h.ids⟩
    simp only [List.mem_map, not_exists, not_and]
    rintro d ⟨q, hq, rfl⟩
    exact (h.accepted q hq).ne
  · rw [List.map_cons, List.map_cons, List.nodup_cons]
    refine ⟨?_, h.addresses⟩
    simp only [List.mem_map, not_exists, not_and]
    rintro d ⟨q, hq, rfl⟩
    exact hnew q hq
  · exact List.nodup_cons.2 ⟨hnotMem, h.distinct⟩
  · intro d
    change d ∈ conn :: live ↔ _
    rw [List.mem_cons, h.live_iff]
    constructor
    · rintro (rfl | ⟨e, he, hd⟩)
      · exact ⟨c, List.mem_cons_self, hopen⟩
      · exact ⟨e, List.mem_cons_of_mem _ he, hd⟩
    · rintro ⟨e, he, hd⟩
      rcases List.mem_cons.1 he with heq | he
      · exact .inl (congrArg Prod.fst heq)
      · exact .inr ⟨e, he, hd⟩
  · intro key d
    change (key, d) ∈ (connName name ipPort conn.id, conn) :: s.connections ↔ d ∈ conn :: live ∧ _
    rw [List.mem_cons, List.mem_cons, h.names, Prod.mk.injEq, or_and_right]
    refine or_congr_left ?_
    constructor
    · rintro ⟨rfl, rfl⟩
      exact ⟨rfl, rfl⟩
    · rintro ⟨rfl, rfl⟩
      exact ⟨rfl, rfl⟩

/-- The connections behind a step of one of them: the others are as they were, and that one is as the step
leaves it, or has been destroyed when it is down. -/
structure Updates (conns : List (Conn × TcpConnection)) (conn : Conn) (c' : TcpConnection)
    (conns' : List (Conn × TcpConnection)) : Prop where
  sublist : (conns'.map Prod.fst).Sublist (conns.map Prod.fst)
  others : ∀ d e, d ≠ conn → ((d, e) ∈ conns' ↔ (d, e) ∈ conns)
  self : ∀ e, (conn, e) ∈ conns' → e = c'
  kept : c'.isOpen → (conn, c') ∈ conns'

theorem updates_map (hc : (conn, c) ∈ s.conns) :
    Updates s.conns conn c' (s.conns.map fun q => if q.1 = conn then (conn, c') else q) := by
  refine ⟨?_, ?_, ?_, fun _ => ?_⟩
  · rw [List.map_map, List.map_congr_left (g := Prod.fst)]
    intro q _
    by_cases hq : q.1 = conn <;> simp [hq]
  · intro d e hd
    simp only [List.mem_map, Prod.exists]
    constructor
    · rintro ⟨d', e', hmem, heq⟩
      split_ifs at heq with hd'
      · exact absurd (congrArg Prod.fst heq).symm hd
      · rwa [← heq]
    · exact fun hmem => ⟨d, e, hmem, if_neg hd⟩
  · intro e he
    obtain ⟨q, -, heq⟩ := List.mem_map.1 he
    split_ifs at heq with hq
    · exact (congrArg Prod.snd heq).symm
    · exact absurd (congrArg Prod.fst heq) hq
  · exact List.mem_map.2 ⟨_, hc, if_pos rfl⟩

theorem updates_filter (hdown : ¬ c'.isOpen) :
    Updates s.conns conn c' (s.conns.filter fun q => q.1 ≠ conn) := by
  refine ⟨List.filter_sublist.map _, ?_, ?_, fun hopen => absurd hopen hdown⟩
  · intro d e hd
    simp [hd]
  · intro e he
    simp at he

theorem Updates.cases {conns conns' : List (Conn × TcpConnection)} (h : Updates conns conn c' conns')
    {p : Conn × TcpConnection} (hp : p ∈ conns') : p = (conn, c') ∨ p ∈ conns := by
  obtain ⟨d, e⟩ := p
  by_cases hd : d = conn
  · subst hd
    exact .inl (by rw [h.self e hp])
  · exact .inr ((h.others d e hd).1 hp)

section Update

variable {conns : List (Conn × TcpConnection)}

theorem Serves.lively_update (h : s.Serves name ipPort live)
    (hgoes : c'.Lively ∧ c'.state ≠ .kConnecting) (hconns : Updates s.conns conn c' conns) :
    ∀ p ∈ conns, p.2.Lively ∧ p.2.state ≠ .kConnecting := by
  intro p hp
  rcases hconns.cases hp with rfl | hp
  · exact hgoes
  · exact h.lively p hp

theorem Serves.accepted_update (h : s.Serves name ipPort live) (hc : (conn, c) ∈ s.conns)
    (hconns : Updates s.conns conn c' conns) : ∀ p ∈ conns, p.1.id < s.nextConnId := by
  intro p hp
  rcases hconns.cases hp with rfl | hp
  · exact h.accepted (conn, c) hc
  · exact h.accepted p hp

/-- A connection that is as open as before. -/
theorem Serves.stay (h : s.Serves name ipPort live) (hc : (conn, c) ∈ s.conns)
    (hgoes : c'.Lively ∧ c'.state ≠ .kConnecting) (hconns : Updates s.conns conn c' conns)
    (hopen : c'.isOpen = c.isOpen) :
    Serves name ipPort { s with conns } live := by
  refine ⟨h.lively_update hgoes hconns, h.accepted_update hc hconns,
    h.ids.sublist (hconns.sublist.map _), h.addresses.sublist (hconns.sublist.map _), h.distinct, ?_,
    h.names⟩
  intro d
  by_cases hd : d = conn
  · subst hd
    rw [h.live_iff_isOpen hc, ← hopen]
    constructor
    · exact fun hd => ⟨c', hconns.kept hd, hd⟩
    · rintro ⟨e, he, hd⟩
      rwa [hconns.self e he] at hd
  · rw [h.live_iff]
    exact exists_congr fun e => and_congr_left' (hconns.others d e hd).symm

/-- A connection that closes is live no more, and its name is out of the map. -/
theorem Serves.close (h : s.Serves name ipPort live) (hc : (conn, c) ∈ s.conns)
    (hgoes : c'.Lively ∧ c'.state ≠ .kConnecting) (hconns : Updates s.conns conn c' conns)
    (hdown : ¬ c'.isOpen) :
    Serves name ipPort { s with
      connections := s.connections.filter fun p => p.1 ≠ connName name ipPort conn.id
      conns } (live.erase conn) := by
  have hids : ∀ d ∈ live, connName name ipPort d.id = connName name ipPort conn.id → d = conn :=
    fun d hd heq => List.inj_on_of_nodup_map h.ids (h.mem_fst hd) (List.mem_map.2 ⟨_, hc, rfl⟩)
      (connName_injective heq)
  refine ⟨h.lively_update hgoes hconns, h.accepted_update hc hconns,
    h.ids.sublist (hconns.sublist.map _), h.addresses.sublist (hconns.sublist.map _),
    h.distinct.erase _, ?_, ?_⟩
  · intro d
    rw [h.distinct.mem_erase_iff]
    by_cases hd : d = conn
    · subst hd
      constructor
      · exact fun hd => absurd rfl hd.1
      · rintro ⟨e, he, hd⟩
        exact absurd (hconns.self e he ▸ hd) hdown
    · rw [h.live_iff, and_iff_right hd]
      exact exists_congr fun e => and_congr_left' (hconns.others d e hd).symm
  · intro key d
    rw [List.mem_filter, h.names, h.distinct.mem_erase_iff]
    constructor
    · rintro ⟨⟨hd, rfl⟩, hne⟩
      exact ⟨⟨fun heq => by simp [heq] at hne, hd⟩, rfl⟩
    · rintro ⟨⟨hne, hd⟩, rfl⟩
      exact ⟨⟨hd, rfl⟩, by simpa using fun heq => hne (hids d hd heq)⟩

end Update

theorem step_on {i : ConnInput} {es : List Effect} {connections : List (Bytes × Conn)}
    (hlookup : s.conns.lookup conn = some c) (hstep : c.step i = some (es, c'))
    (hremove : removeConnection name ipPort s.connections conn es = some connections) :
    s.step name ipPort (.on conn i) = some (es.map (conn, ·), { s with
      connections
      conns :=
        if c.IsDestroyedBy i then s.conns.filter fun q => q.1 ≠ conn
        else s.conns.map fun q => if q.1 = conn then (conn, c') else q }) := by
  simp only [step, hlookup, hstep, hremove, Option.bind_some, Option.map_some]

/-- **Something happens to a connection.** -/
theorem Serves.on (h : s.Serves name ipPort live) {i : ConnInput}
    (hpossible : s.Possible (.on conn i)) :
    ∃ effects s', s.step name ipPort (.on conn i) = some (effects, s') ∧
      Legal Conn.address live (reports effects) ∧ Heard live effects ∧
      s'.Serves name ipPort (liveAfter live (reports effects)) := by
  cases hlookup : s.conns.lookup conn with
  | none => exact ⟨[], s, by simp [step, hlookup], trivial, heard_nil live, h⟩
  | some c =>
    have hc := mem_of_lookup hlookup
    obtain ⟨hlively, hstate⟩ : c.Lively ∧ c.state ≠ .kConnecting := h.lively _ hc
    obtain ⟨es, c', hstep, hgoes⟩ := hlively.goes_step (hpossible c hlookup)
    have hconns : Updates s.conns conn c'
        (if c.IsDestroyedBy i then s.conns.filter fun q => q.1 ≠ conn
          else s.conns.map fun q => if q.1 = conn then (conn, c') else q) := by
      split_ifs with hdestroyed
      · exact updates_filter (TcpConnection.not_isOpen_of_down
          (hgoes.down (hlively.down_of_isDestroyedBy hdestroyed)))
      · exact updates_map hc
    have hreports := reports_callbacks conn es
    have hclose := @TcpConnection.close_mem_callbacks es
    rcases hgoes.cases hstate with ⟨hopen, hopen', contents, hes⟩ | ⟨hopen, hdown, contents, hes⟩ |
      ⟨hdown, hdown', hes⟩
    · rw [hes, reports_messages] at hreports
      have hclose' : .close ∉ es := by simp [← hclose, hes]
      refine ⟨_, _, step_on hlookup hstep (if_neg hclose'), by rw [← hreports]; trivial, ?_, ?_⟩
      · exact heard_of_callbacks ((h.live_iff_isOpen hc).2 hopen)
          (hes.trans (List.append_nil _).symm) (by simp)
      · rw [← hreports]
        refine h.stay hc ⟨hgoes.lively, fun heq => ?_⟩ hconns (by rw [hopen, hopen'])
        simp [TcpConnection.isOpen, heq] at hopen'
    · have hlive := (h.live_iff_isOpen hc).2 hopen
      have hname : (s.connections.lookup (connName name ipPort conn.id)).isSome :=
        List.lookup_isSome_iff.2 ⟨_, (h.names _ conn).2 ⟨hlive, rfl⟩, by simp⟩
      rw [hes, List.map_append, reports_append, reports_messages] at hreports
      have hclose' : .close ∈ es := by simp [← hclose, hes]
      refine ⟨_, _, step_on hlookup hstep ((if_pos hclose').trans (if_pos hname)),
        by rw [← hreports]; exact ⟨hlive, trivial⟩, ?_, ?_⟩
      · exact heard_of_callbacks hlive hes (by simp)
      · rw [← hreports]
        exact h.close hc ⟨hgoes.lively, by simp [hdown]⟩ hconns (TcpConnection.not_isOpen_of_down hdown)
    · rw [hes] at hreports
      have hclose' : .close ∉ es := by simp [← hclose, hes]
      refine ⟨_, _, step_on hlookup hstep (if_neg hclose'), by rw [← hreports]; trivial,
        heard_of_silent hes, ?_⟩
      rw [← hreports]
      exact h.stay hc ⟨hgoes.lively, by simp [hdown']⟩ hconns
        (by simp [TcpConnection.isOpen, hdown, hdown'])

/-- **A possible step of a server**: no assertion fails, its reports are legal, and messages are for
connections that are up. -/
theorem Serves.serves_step (h : s.Serves name ipPort live) {i : ServerInput} (hi : s.Possible i) :
    ∃ effects s', s.step name ipPort i = some (effects, s') ∧
      Legal Conn.address live (reports effects) ∧ Heard live effects ∧
      s'.Serves name ipPort (liveAfter live (reports effects)) := by
  cases i with
  | newConnection address => exact h.newConnection hi
  | on conn i => exact h.on hi

/-- A run of which every step is possible. -/
abbrev PossibleRun (name ipPort : Bytes) (s : TcpServer) (is : List ServerInput) : Prop :=
  Along (fun s i => (s.step name ipPort i).map Prod.snd) Possible s is

/-- **A possible run of a server.** -/
theorem Serves.serves_run (h : s.Serves name ipPort live) {is : List ServerInput}
    (his : s.PossibleRun name ipPort is) :
    ∃ out s', runs (step name ipPort) s is = some (out, s') ∧
      Legal Conn.address live (reports out.flatten) ∧ Heard live out.flatten ∧
      s'.Serves name ipPort (liveAfter live (reports out.flatten)) := by
  induction is generalizing s live with
  | nil => exact ⟨[], s, rfl, trivial, heard_nil live, h⟩
  | cons i is ih =>
    obtain ⟨hi, hrest⟩ := (along_cons _ _ _).1 his
    obtain ⟨effects, t, hstep, hlegal, hheard, hserves⟩ := h.serves_step hi
    obtain ⟨out, s', hrun, hlegal', hheard', hserves'⟩ := ih hserves (hrest t (by rw [hstep]; rfl))
    refine ⟨effects :: out, s', runs_cons_eq_some.2 ⟨effects, t, out, hstep, hrun, rfl⟩, ?_, ?_, ?_⟩
    · rw [List.flatten_cons, reports_append]
      exact legal_append.2 ⟨hlegal, hlegal'⟩
    · exact heard_append hheard hheard'
    · rwa [List.flatten_cons, reports_append, liveAfter_append]

/-! ### The session tables -/

/-- The connections of a server that are open. -/
def openConns (s : TcpServer) : List Conn := (s.conns.filter fun p => p.2.isOpen).map Prod.fst

theorem Serves.openConns_perm (h : s.Serves name ipPort live) : s.openConns.Perm live := by
  have hnodup : s.openConns.Nodup :=
    (List.Nodup.of_map _ h.ids).sublist (List.filter_sublist.map _)
  refine (List.perm_ext_iff_of_nodup hnodup h.distinct).2 fun conn => ?_
  rw [h.live_iff, openConns]
  simp

end TcpServer

/-- A table does not depend on the order of the connections. -/
theorem oneEach_perm {σ : Type} {make : Conn → σ} {live live' : List Conn} {table : KeyedTable Bytes σ}
    (h : OneEach make live table) (hperm : live'.Perm live) : OneEach make live' table where
  distinct := hperm.nodup_iff.2 h.distinct
  entry_iff key session := by
    rw [h.entry_iff]
    simp only [hperm.mem_iff]
  size := h.size.trans hperm.length_eq.symm

namespace TcpServer

/-- Two connections come up, and two bytes arrive for the first one. -/
def twoConnections : List ServerInput :=
  [.newConnection 0x7F00, .newConnection 0x7F80, .on ⟨1, 0x7F00⟩ (.poll { pollIn := true }),
    .on ⟨1, 0x7F00⟩ (.handle (some (ascii "hi")) .wouldBlock)]

theorem possibleRun_twoConnections : PossibleRun [] [] {} twoConnections := by
  refine ⟨fun p hp => ?_, fun s₁ h₁ => ?_⟩
  · cases hp
  cases h₁
  refine ⟨fun p hp => ?_, fun s₂ h₂ => ?_⟩
  · obtain rfl := List.mem_singleton.1 hp
    decide
  cases h₂
  refine ⟨fun c hc => ?_, fun s₃ h₃ => ?_⟩
  · cases hc
    exact ⟨rfl, rfl, rfl, by simp⟩
  cases h₃
  exact ⟨fun c hc => trivial, fun _ _ => trivial⟩

/-- **A message has a session.** Whenever a message callback of a connection is called, in a possible run
of a server, both tables have the session that was made when that connection came up: so the session that
the callback is bound to has not been destroyed. -/
theorem message_has_session {name ipPort : Bytes} {is : List ServerInput}
    {out : List (List (Conn × Effect))} {s : TcpServer} (h : PossibleRun name ipPort {} is)
    (hrun : runs (step name ipPort) {} is = some (out, s)) {before behind : List (Conn × Effect)}
    {conn : Conn} {content : Bytes} (hout : out.flatten = before ++ (conn, .message content) :: behind) :
    ((reports before).foldl IMServer.report {}).mapclient[printPointer conn.address]? =
        some (ClientSession.new conn) ∧
      ((reports before).foldl FileServer.report {}).sessions[printPointer conn.address]? =
        some (FileServer.Session.new conn) := by
  obtain ⟨out', s', hrun', hlegal, hheard, -⟩ := serves_new.serves_run h
  obtain ⟨rfl, rfl⟩ : out' = out ∧ s' = s := by simpa using hrun'.symm.trans hrun
  have hconn := hheard _ _ _ _ hout
  rw [hout, reports_append] at hlegal
  have hbefore : LegalReports (reports before) := (legal_append.1 hlegal).1
  rw [IMServer.mapclient_foldl_report, FileServer.sessions_foldl_report]
  exact ⟨((oneEach_run _ hbefore).entry_iff _ _).2 ⟨conn, hconn, rfl, rfl⟩,
    ((oneEach_run _ hbefore).entry_iff _ _).2 ⟨conn, hconn, rfl, rfl⟩⟩

theorem message_has_session_twoConnections :
    ((reports [(⟨1, 0x7F00⟩, .connection true), (⟨2, 0x7F80⟩, .connection true)]).foldl
        IMServer.report {}).mapclient[printPointer 0x7F00]? = some (ClientSession.new ⟨1, 0x7F00⟩) ∧
      ((reports [(⟨1, 0x7F00⟩, .connection true), (⟨2, 0x7F80⟩, .connection true)]).foldl
        FileServer.report {}).sessions[printPointer 0x7F00]? =
          some (FileServer.Session.new ⟨1, 0x7F00⟩) :=
  @message_has_session [] [] twoConnections _ _ possibleRun_twoConnections rfl _ _ ⟨1, 0x7F00⟩ _ rfl

end TcpServer

end Net

end GraduationServer
