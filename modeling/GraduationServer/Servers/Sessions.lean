import GraduationServer.File.Streams
import GraduationServer.Foundations.Registry
import GraduationServer.Users.Records

/-!
# The session tables

`IMServer` (`IMServer.cpp`) and `FileServer` (`FileServer/FileServer.cpp`) keep the session of each
connection in a map, under the address of the connection as the stream prints it. `OnConnection` is called
when a connection is up and again when it is down. The map owns the sessions: what is not in it has been
destroyed.

Printed addresses differ when the addresses do (`printPointer_injective`), so both maps are registries of
the live connections (`sessions_match`).
-/

namespace GraduationServer

open Registry

/-! ## Connections -/

/-- A connection: the number under which it was accepted, and the address of its object, which may have
been that of an earlier one. -/
structure Conn where
  id : ℕ
  address : UInt64
  deriving DecidableEq

/-- An address as `<<` prints it. The null pointer is printed without a base. -/
def printPointer (p : UInt64) : Bytes :=
  if p = 0 then ascii "0" else ascii "0x" ++ numeral 16 p.toNat

/-- **Different addresses are printed differently.** -/
theorem printPointer_injective : Function.Injective printPointer := by
  have hnull : ∀ n, ascii "0" ≠ ascii "0x" ++ numeral 16 n := by
    intro n h
    have hlength := congrArg List.length h
    rw [List.length_append, show (ascii "0").length = 1 from rfl,
      show (ascii "0x").length = 2 from rfl] at hlength
    omega
  intro p q h
  unfold printPointer at h
  split_ifs at h with hp hq hq
  · rw [hp, hq]
  · exact absurd h (hnull _)
  · exact absurd h.symm (hnull _)
  · have hdigits := congrArg (ofNumeral 16) (List.append_cancel_left h)
    rw [ofNumeral_numeral (by decide) (by decide), ofNumeral_numeral (by decide) (by decide)] at hdigits
    exact UInt64.toNat_inj.1 hdigits

/-- The key of a connection. -/
def Conn.key (conn : Conn) : Bytes := printPointer conn.address

instance (live : List Conn) : (e : Event Conn) → Decidable (e.Allowed Conn.address live)
  | .up _ => inferInstanceAs (Decidable (∀ _ ∈ _, _))
  | .down _ => inferInstanceAs (Decidable (_ ∈ _))

/-! ## The client server -/

/-- The members of a client session that anything uses. -/
structure ClientSession where
  sessionid : Bytes
  user : Option User
  conn : Conn

/-- `ClientSession::ClientSession`: the session has a user of its own, as the constructor leaves it. -/
def ClientSession.new (conn : Conn) : ClientSession where
  sessionid := printPointer conn.address
  user := some {}
  conn := conn

structure IMServer where
  mapclient : KeyedTable Bytes ClientSession := ∅

namespace IMServer

/-- `OnClose`. -/
def onClose (s : IMServer) (conn : Conn) : IMServer where
  mapclient := s.mapclient.erase (printPointer conn.address)

/-- `OnConnection`. An insertion leaves an entry under the same key as it is. -/
def onConnection (s : IMServer) (conn : Conn) (connected : Bool) : IMServer :=
  if connected then
    let client := ClientSession.new conn
    { s with mapclient := s.mapclient.insertIfNew client.sessionid client }
  else s.onClose conn

/-- What is reported about a connection. -/
def report (s : IMServer) : Event Conn → IMServer
  | .up conn => s.onConnection conn true
  | .down conn => s.onConnection conn false

theorem mapclient_foldl_report (events : List (Event Conn)) (s : IMServer) :
    (events.foldl report s).mapclient =
      events.foldl (Event.apply Conn.key ClientSession.new) s.mapclient := by
  induction events generalizing s with
  | nil => rfl
  | cons e events ih =>
    rw [List.foldl_cons, List.foldl_cons, ih]
    cases e <;> rfl

end IMServer

/-! ## The file server -/

namespace FileServer

/-- A file session: its connection, and the members of the class. -/
structure Session where
  conn : Conn
  fields : FileSession.Fields := {}

/-- `FileSession::FileSession`. -/
def Session.new (conn : Conn) : Session := { conn }

end FileServer

structure FileServer where
  sessions : KeyedTable Bytes FileServer.Session := ∅

namespace FileServer

/-- `OnClose`. -/
def onClose (s : FileServer) (conn : Conn) : FileServer where
  sessions := s.sessions.erase (printPointer conn.address)

/-- `OnConnection`. -/
def onConnection (s : FileServer) (conn : Conn) (connected : Bool) : FileServer :=
  if connected then
    { s with sessions := s.sessions.insertIfNew (printPointer conn.address) (.new conn) }
  else s.onClose conn

/-- What is reported about a connection. -/
def report (s : FileServer) : Event Conn → FileServer
  | .up conn => s.onConnection conn true
  | .down conn => s.onConnection conn false

theorem sessions_foldl_report (events : List (Event Conn)) (s : FileServer) :
    (events.foldl report s).sessions =
      events.foldl (Event.apply Conn.key Session.new) s.sessions := by
  induction events generalizing s with
  | nil => rfl
  | cons e events ih =>
    rw [List.foldl_cons, List.foldl_cons, ih]
    cases e <;> rfl

end FileServer

/-! ## One entry for each connection -/

/-- The reports of the connections: one that comes up has another address than those that are up, and one
that goes down is up. -/
abbrev LegalReports (events : List (Event Conn)) : Prop := Legal Conn.address [] events

/-- The table has one entry for each live connection, with the session made for it, and no other. -/
structure OneEach {σ : Type} (make : Conn → σ) (live : List Conn) (table : KeyedTable Bytes σ) : Prop where
  distinct : live.Nodup
  entry_iff : ∀ key session, table[key]? = some session ↔
    ∃ conn ∈ live, printPointer conn.address = key ∧ session = make conn
  size : table.size = live.length

theorem oneEach_run {σ : Type} (make : Conn → σ) {events : List (Event Conn)}
    (h : LegalReports events) :
    OneEach make (liveAfter [] events) (events.foldl (Event.apply Conn.key make) ∅) := by
  have hlegal : Legal Conn.key [] events := (legal_comp printPointer_injective).2 h
  have hmatches := matches_run (fun conn session => session = make conn) (fun _ => rfl) matches_nil
    hlegal
  exact ⟨List.Nodup.of_map _ hmatches.distinct, hmatches.getElem?_eq_some_iff, hmatches.size⟩

/-- **Both session tables match the live connections** after every event of every sequence in which live
connections have distinct addresses. -/
theorem sessions_match {events : List (Event Conn)} (h : LegalReports events) (n : ℕ) :
    OneEach ClientSession.new (liveAfter [] (events.take n))
        ((events.take n).foldl IMServer.report {}).mapclient ∧
      OneEach FileServer.Session.new (liveAfter [] (events.take n))
        ((events.take n).foldl FileServer.report {}).sessions := by
  rw [IMServer.mapclient_foldl_report, FileServer.sessions_foldl_report]
  exact ⟨oneEach_run _ (h.take n), oneEach_run _ (h.take n)⟩

/-- Connections that come and go, the last one at the address of the first. -/
def reusedAddress : List (Event Conn) :=
  [.up ⟨0, 0x7F00⟩, .up ⟨1, 0x7F80⟩, .down ⟨0, 0x7F00⟩, .up ⟨2, 0x7F00⟩]

theorem sessions_match_reusedAddress :
    OneEach ClientSession.new [⟨2, 0x7F00⟩, ⟨1, 0x7F80⟩]
        (reusedAddress.foldl IMServer.report {}).mapclient ∧
      OneEach FileServer.Session.new [⟨2, 0x7F00⟩, ⟨1, 0x7F80⟩]
        (reusedAddress.foldl FileServer.report {}).sessions := by
  have hlegal : LegalReports reusedAddress := by
    simp [LegalReports, Legal, reusedAddress, Event.Allowed, Event.live]
  exact sessions_match hlegal 4

end GraduationServer
