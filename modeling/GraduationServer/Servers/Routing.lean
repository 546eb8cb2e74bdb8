import GraduationServer.Client.Accounts
import GraduationServer.Servers.Sessions

/-!
# Sessions by user

`IMServer::GetSessionByID` looks for the session of a user by the user that the session keeps. That user
is made with the session, and a login works on a copy of its own, so every session stays the session of
the user with id 0. The lookup therefore finds nothing under any other id, and under 0 whatever session
comes first in the map.

A run of the server is a list of reports and messages (`State.run`). Beside the server it records as whom
each connection has logged in last; `follows_iff` says when the lookup agrees with that record.
-/

namespace GraduationServer

open Json Registry

/-! ## Lookups -/

/-- `UserID`. -/
def ClientSession.userID (s : ClientSession) : Int32 :=
  match s.user with
  | some user => user.userid
  | none => -1

@[simp] theorem ClientSession.userID_new (conn : Conn) : (ClientSession.new conn).userID = 0 := rfl

namespace IMServer

/-- `GetSessionByID`: the first session in the order of the keys. -/
def getSessionByID (s : IMServer) (userid : Int32) : Option ClientSession :=
  (s.mapclient.toList.find? fun entry => entry.2.userID = userid).map Prod.snd

/-- `IsUserSessionExsit`. -/
def isUserSessionExsit (s : IMServer) (userid : Int32) : Bool :=
  s.mapclient.toList.any fun entry => entry.2.userID = userid

/-- The two lookups agree. -/
theorem isUserSessionExsit_eq (s : IMServer) (userid : Int32) :
    s.isUserSessionExsit userid = (s.getSessionByID userid).isSome := by
  rw [isUserSessionExsit, getSessionByID, Option.isSome_map, Bool.eq_iff_iff, List.any_eq_true,
    List.find?_isSome]

end IMServer

/-! ## Runs -/

namespace ClientSession

/-- Who has logged in with a message: the cached user, or nobody when there is none of that name. No
result when the message is not a login or the login does not succeed. -/
def acceptedLogin (m : UserManager) (msgbuff : Bytes) : Option (Option User) := do
  let type ← messageType msgbuff
  let (ok, root) ← Reader.parse msgbuff
  if type = some .login ∧ ok = true then
    let userName ← root.stringMember (ascii "username")
    let password ← root.stringMember (ascii "password")
    let (state, user) := loginState m userName password
    if state = 1 then
      return if (m.getUserInfoByUsername userName {}).1 then some user else none
    else none
  else none

end ClientSession

namespace IMServer

/-- What happens to the server. -/
inductive Input
  | report (e : Event Conn)
  | message (conn : Conn) (e : Surroundings) (msgbuff : Bytes)

/-- The server with its user manager, the live connections, and the cached user as whom each connection
has logged in last. -/
structure State where
  server : Server
  im : IMServer
  live : List Conn
  latest : Conn → Option User

namespace State

/-- The server before the first connection. -/
def start (server : Server) : State := ⟨server, {}, [], fun _ => none⟩

/-- A step. There is none for a report that cannot come or for a message to a session that has been
destroyed, nor when the handling of a message throws. -/
def next (s : State) : Input → Option State
  | .report e =>
    if e.Allowed Conn.address s.live then
      some { s with
        im := s.im.report e
        live := e.live s.live
        latest := match e with
          | .up conn => Function.update s.latest conn none
          | .down _ => s.latest }
    else none
  | .message conn e msgbuff =>
    match s.im.mapclient[printPointer conn.address]? with
    | none => none
    | some client =>
      if client.conn = conn then
        (ClientSession.process s.server e msgbuff).map fun handled =>
          { s with
            server := handled.1
            latest := match ClientSession.acceptedLogin s.server.manager msgbuff with
              | none => s.latest
              | some user => Function.update s.latest conn user }
      else none

/-- The server after some inputs. -/
def run (s : State) (inputs : List Input) : Option State := inputs.foldlM next s

/-- The table has the sessions of the live connections. -/
def Sound (s : State) : Prop :=
  Matches Conn.key (fun conn session => session = ClientSession.new conn) s.live s.im.mapclient

theorem sound_next {s s' : State} {i : Input} (hs : s.Sound) (h : s.next i = some s') : s'.Sound := by
  cases i with
  | report e =>
    simp only [next] at h
    split at h
    · next hallowed =>
      cases h
      have hkey := (Event.allowed_comp printPointer_injective Conn.address s.live e).2 hallowed
      cases e with
      | up conn => exact Matches.up hs hkey rfl
      | down conn => exact Matches.down hs hallowed
    · cases h
  | message conn e msgbuff =>
    simp only [next] at h
    split at h
    · cases h
    · split at h
      · obtain ⟨handled, -, rfl⟩ := Option.map_eq_some_iff.1 h
        exact hs
      · cases h

/-- **The table has the sessions of the live connections after every run.** -/
theorem sound_run {s s' : State} {inputs : List Input} (hs : s.Sound)
    (h : s.run inputs = some s') : s'.Sound := by
  induction inputs generalizing s with
  | nil =>
    cases h
    exact hs
  | cons i inputs ih =>
    rw [run, List.foldlM_cons] at h
    obtain ⟨s₁, hstep, hrest⟩ := Option.bind_eq_some_iff.1 h
    exact ih (sound_next hs hstep) hrest

theorem sound_start (server : Server) : (start server).Sound := matches_nil

/-! ## When the lookup follows the logins -/

/-- An open connection whose latest successful login was as a cached user with this id. -/
def LoggedIn (s : State) (conn : Conn) (id : Int32) : Prop :=
  conn ∈ s.live ∧ ∃ user, s.latest conn = some user ∧ user.userid = id

/-- The lookup of an id finds a session exactly when a connection is logged in under it, and then such
a session. -/
def Follows (s : State) (id : Int32) : Prop :=
  ((s.im.getSessionByID id).isSome = true ↔ ∃ conn, s.LoggedIn conn id) ∧
    (∀ session, s.im.getSessionByID id = some session → s.LoggedIn session.conn id) ∧
      (s.im.isUserSessionExsit id = true ↔ ∃ conn, s.LoggedIn conn id)

/-- The open connection whose printed address comes first. -/
def First (s : State) (conn : Conn) : Prop :=
  conn ∈ s.live ∧ ∀ other ∈ s.live, other ≠ conn →
    compare (printPointer conn.address) (printPointer other.address) = .lt

/-- Nobody is logged in under an id other than 0; the connection that comes first is logged in under 0. -/
def Fits (s : State) (id : Int32) : Prop :=
  if id = 0 then ∀ conn, s.First conn → s.LoggedIn conn 0 else ∀ conn, ¬ s.LoggedIn conn id

variable {s : State}

/-- The sessions of the map, and all of them have the user with id 0. -/
theorem Sound.mem_toList_iff (hs : s.Sound) {key : Bytes} {session : ClientSession} :
    (key, session) ∈ s.im.mapclient.toList ↔
      ∃ conn ∈ s.live, printPointer conn.address = key ∧ session = ClientSession.new conn := by
  rw [Std.ExtTreeMap.mem_toList_iff_getElem?_eq_some]
  exact hs.getElem?_eq_some_iff key session

theorem Sound.userID_eq (hs : s.Sound) {entry : Bytes × ClientSession}
    (h : entry ∈ s.im.mapclient.toList) : entry.2.userID = 0 := by
  obtain ⟨conn, -, -, hsession⟩ := hs.mem_toList_iff.1 h
  rw [hsession, ClientSession.userID_new]

/-- Under another id nothing is found. -/
theorem Sound.getSessionByID_of_ne (hs : s.Sound) {id : Int32} (hid : id ≠ 0) :
    s.im.getSessionByID id = none := by
  rw [getSessionByID, List.find?_eq_none.2, Option.map_none]
  intro entry hentry
  rw [hs.userID_eq hentry]
  simpa using hid.symm

/-- Under 0 the first session of the map is found. -/
theorem Sound.getSessionByID_eq_head (hs : s.Sound) :
    s.im.getSessionByID 0 = s.im.mapclient.toList.head?.map Prod.snd := by
  have hall : ∀ entry ∈ s.im.mapclient.toList, entry.2.userID = 0 := fun _ => hs.userID_eq
  rw [getSessionByID]
  cases hlist : s.im.mapclient.toList with
  | nil => rfl
  | cons entry rest =>
    rw [hlist] at hall
    simp [hall entry List.mem_cons_self]

/-- It is that of the first connection. -/
theorem Sound.getSessionByID_zero (hs : s.Sound) {session : ClientSession} :
    s.im.getSessionByID 0 = some session ↔
      ∃ conn, s.First conn ∧ session = ClientSession.new conn := by
  have hmem := @Sound.mem_toList_iff s hs
  have hordered := Std.ExtTreeMap.ordered_keys_toList (t := s.im.mapclient)
  rw [hs.getSessionByID_eq_head]
  cases hlist : s.im.mapclient.toList with
  | nil =>
    refine iff_of_false nofun ?_
    rintro ⟨conn, ⟨hlive, -⟩, -⟩
    have hconn := hmem.2 ⟨conn, hlive, rfl, rfl⟩
    rw [hlist] at hconn
    cases hconn
  | cons entry rest =>
    obtain ⟨key, first⟩ := entry
    rw [hlist] at hmem hordered
    obtain ⟨conn, hlive, rfl, rfl⟩ := hmem.1 List.mem_cons_self
    have hrest : ∀ other ∈ s.live, other ≠ conn →
        compare (printPointer conn.address) (printPointer other.address) = .lt := by
      intro other hother hne
      rcases List.mem_cons.1 (hmem.2 ⟨other, hother, rfl, rfl⟩) with heq | hmem
      · exact absurd (congrArg (fun entry => entry.2.conn) heq) hne
      · exact List.rel_of_pairwise_cons hordered hmem
    constructor
    · intro h
      cases h
      exact ⟨conn, ⟨hlive, hrest⟩, rfl⟩
    · rintro ⟨other, ⟨hother, hfirst⟩, rfl⟩
      rcases eq_or_ne other conn with rfl | hne
      · rfl
      · have hlt := hrest other hother hne
        rw [Std.OrientedCmp.gt_of_lt (hfirst conn hlive hne.symm)] at hlt
        cases hlt

/-- Nothing is found exactly when no connection is open. -/
theorem Sound.exists_first (hs : s.Sound) :
    (s.im.getSessionByID 0).isSome = true ↔ ∃ conn, s.First conn := by
  rw [Option.isSome_iff_exists]
  constructor
  · rintro ⟨session, h⟩
    obtain ⟨conn, hfirst, -⟩ := hs.getSessionByID_zero.1 h
    exact ⟨conn, hfirst⟩
  · rintro ⟨conn, hfirst⟩
    exact ⟨_, hs.getSessionByID_zero.2 ⟨conn, hfirst, rfl⟩⟩

/-- If a connection is open then one comes first. -/
theorem Sound.exists_first_of_mem (hs : s.Sound) {conn : Conn} (h : conn ∈ s.live) :
    ∃ conn, s.First conn := by
  rw [← hs.exists_first, hs.getSessionByID_eq_head, Option.isSome_map, List.isSome_head?]
  exact List.ne_nil_of_mem (hs.mem_toList_iff.2 ⟨conn, h, rfl, rfl⟩)

/-- The lookup of 0 follows the logins when the first connection is logged in under 0. -/
theorem Sound.follows_zero_iff (hs : s.Sound) :
    s.Follows 0 ↔ ∀ conn, s.First conn → s.LoggedIn conn 0 := by
  rw [Follows, isUserSessionExsit_eq, hs.exists_first]
  constructor
  · rintro ⟨-, hfound, -⟩ conn hfirst
    exact hfound _ (hs.getSessionByID_zero.2 ⟨conn, hfirst, rfl⟩)
  · intro hlogged
    have hiff : (∃ conn, s.First conn) ↔ ∃ conn, s.LoggedIn conn 0 := by
      constructor
      · rintro ⟨conn, hfirst⟩
        exact ⟨conn, hlogged conn hfirst⟩
      · rintro ⟨conn, hconn⟩
        exact hs.exists_first_of_mem hconn.1
    refine ⟨hiff, fun session hsession => ?_, hiff⟩
    obtain ⟨conn, hfirst, rfl⟩ := hs.getSessionByID_zero.1 hsession
    exact hlogged conn hfirst

/-- The lookup of another id follows the logins when nobody is logged in under it. -/
theorem Sound.follows_iff_of_ne (hs : s.Sound) {id : Int32} (hid : id ≠ 0) :
    s.Follows id ↔ ∀ conn, ¬ s.LoggedIn conn id := by
  rw [Follows, isUserSessionExsit_eq, hs.getSessionByID_of_ne hid, ← not_exists]
  simp

/-- **After every run the lookup of an id follows the logins exactly when nobody is logged in under it**,
for an id other than 0, **or the connection that comes first is**, for the id 0. -/
theorem follows_iff {server : Server} {inputs : List Input} (h : (start server).run inputs = some s)
    (id : Int32) : s.Follows id ↔ s.Fits id := by
  have hs : s.Sound := sound_run (sound_start server) h
  unfold Fits
  split
  · next hid =>
    rw [hid]
    exact hs.follows_zero_iff
  · next hid => exact hs.follows_iff_of_ne hid

/-! ## One connection -/

/-- The connection of `bob`, who registers and logs in. -/
def bobConn : Conn := ⟨0, 0x7F00⟩

def bobInputs : List Input :=
  [.report (.up bobConn),
    .message bobConn ClientSession.carrying (ClientSession.registrationOf "bob" "pw"),
    .message bobConn ClientSession.quiet (ClientSession.loginOf "bob" "pw")]

/-- The session of `bob`, who has the id 1, is not found. -/
theorem not_follows :
    init smallDatabase smallAnswers = some (true, smallManager) ∧
      ∃ s, (start ⟨smallDatabase, smallManager⟩).run bobInputs = some s ∧ s.LoggedIn bobConn 1 ∧
        s.im.getSessionByID 1 = none ∧ ¬ s.Follows 1 := by
  have hrun : ((start ⟨smallDatabase, smallManager⟩).run bobInputs).map
      (fun s => (s.live, (s.latest bobConn).map User.userid)) = some ([bobConn], some 1) := by
    decide +kernel
  obtain ⟨s, hs, heq⟩ := Option.map_eq_some_iff.1 hrun
  obtain ⟨hlive, hlatest⟩ := Prod.mk.inj heq
  have hlogged : s.LoggedIn bobConn 1 :=
    ⟨by rw [hlive]; exact List.mem_singleton_self _, Option.map_eq_some_iff.1 hlatest⟩
  have hsound : s.Sound := sound_run (sound_start _) hs
  refine ⟨init_smallDatabase, s, hs, hlogged, hsound.getSessionByID_of_ne (by decide), fun h => ?_⟩
  exact (hsound.follows_iff_of_ne (by decide)).1 h bobConn hlogged

/-- A connection that has just come up is found under 0, where nobody is logged in. -/
theorem follows_up :
    ∃ s, (start ⟨smallDatabase, smallManager⟩).run [.report (.up bobConn)] = some s ∧
      s.Follows 1 ∧ ¬ s.Follows 0 := by
  have hrun : (start ⟨smallDatabase, smallManager⟩).run [.report (.up bobConn)] =
      some ⟨⟨smallDatabase, smallManager⟩, IMServer.onConnection ⟨∅⟩ bobConn true, [bobConn],
        Function.update (fun _ => none) bobConn none⟩ := rfl
  refine ⟨_, hrun, (follows_iff hrun 1).2 ?_, fun h => ?_⟩
  · rintro conn ⟨-, user, hlatest, -⟩
    simp at hlatest
  · have hfits : ∀ conn, _ → _ := (follows_iff hrun 0).1 h
    obtain ⟨-, user, hlatest, -⟩ := hfits bobConn ⟨List.mem_singleton_self _, fun other hother hne =>
      absurd (List.mem_singleton.1 hother) hne⟩
    simp at hlatest

end State

end IMServer

end GraduationServer
