import GraduationServer.Foundations.Runs
import GraduationServer.Servers.Sessions

/-!
# The handles of uploads

A file session opens a stream with the header of an upload and closes it with the last message or after a
failed write. When its connection goes down the session is destroyed, and its destructor does nothing. So
the open streams are those of the live sessions that are in the middle of an upload as long as no session
goes in the middle of one (`noLeak_iff`).
-/

namespace GraduationServer

open Json Registry

namespace FileSession

/-! ## The stream of a session -/

variable {host : Host} {w w' : World}

theorem streams_fwrite {fp : Option ℕ} {data : Bytes} {written : Bool}
    (h : fwrite host w fp data = .ok (written, w')) : w'.streams = w.streams := by
  unfold fwrite at h
  split at h
  · dsimp only at h
    split at h
    · cases h
      rfl
    · cases h
      rfl
  · cases h

/-- The stream of a session is closed. -/
theorem use_fclose {fp : Option ℕ} (h : fclose host w fp = .ok w') :
    w.streams.Use fp w'.streams none := by
  unfold fclose at h
  split at h
  · next i path _ =>
    cases h
    exact .lose i
  · cases h

/-- A stream is opened, or the file does not open. -/
theorem use_fopen (host : Host) (w : World) (path : Bytes) :
    w.streams.Use none (fopen host w path).2.streams (fopen host w path).1 := by
  unfold fopen
  split
  · exact .gain path
  · exact .keep none

/-- A step that does not stop has a result for the next one. -/
theorem bind_eq_ok {α β : Type} {x : Except Stop α} {f : α → Except Stop β} {b : β}
    (h : x >>= f = .ok b) : ∃ a, x = .ok a ∧ f a = .ok b := by
  cases x with
  | error stop => cases h
  | ok a => exact ⟨a, rfl, h⟩

namespace Fields

variable {s s' : Fields} {actions : List Action}

/-- The session holds a stream while an upload is going on. -/
def Balanced (s : Fields) : Prop := s.isState = true ↔ s.fp ≠ none

/-- What a message does with the stream of the session. -/
structure Uses (s : Fields) (w : World) (s' : Fields) (w' : World) : Prop where
  use : w.streams.Use s.fp w'.streams s'.fp
  balanced : s'.Balanced

theorem balanced_idle {s : Fields} (hstate : s.isState = false) (hfp : s.fp = none) : s.Balanced := by
  simp [Balanced, hstate, hfp]

theorem uses_takeData (hs : s.Balanced) {filedata : Bytes}
    (h : s.takeData w host filedata = .ok (s', w', actions)) : s.Uses w s' w' := by
  unfold takeData at h
  split at h
  · next hfp =>
    cases h
    exact ⟨.keep _, balanced_idle rfl hfp⟩
  · obtain ⟨⟨written, w₁⟩, hwrite, h⟩ := bind_eq_ok h
    have hstreams := streams_fwrite hwrite
    dsimp only at h
    split at h
    · split at h
      · obtain ⟨w₂, hclose, h⟩ := bind_eq_ok h
        have huse := use_fclose hclose
        rw [hstreams] at huse
        split at h
        · cases h
          exact ⟨huse, balanced_idle rfl rfl⟩
        · cases h
          exact ⟨huse, balanced_idle rfl rfl⟩
      · cases h
        refine ⟨?_, hs⟩
        rw [hstreams]
        exact .keep _
    · obtain ⟨w₂, hclose, h⟩ := bind_eq_ok h
      have huse := use_fclose hclose
      rw [hstreams] at huse
      cases h
      exact ⟨huse, balanced_idle rfl rfl⟩

theorem uses_takeHeader (hs : s.fp = none) {jsonStr : Value}
    (h : s.takeHeader w host jsonStr = .ok (s', w', actions)) : s.Uses w s' w' := by
  unfold takeHeader at h
  obtain ⟨valid, -, h⟩ := bind_eq_ok h
  split at h
  · obtain ⟨fileName, -, h⟩ := bind_eq_ok h
    obtain ⟨filesize, -, h⟩ := bind_eq_ok h
    have huse := use_fopen host w (cStr (uploadPath fileName))
    rw [← hs] at huse
    dsimp only at h
    split at h
    · next hfp =>
      cases h
      exact ⟨huse, balanced_idle rfl hfp⟩
    · next hfp =>
      cases h
      exact ⟨huse, iff_of_true rfl hfp⟩
  · cases h
    exact ⟨.keep _, balanced_idle rfl hs⟩

/-- **A message leaves the stream of the session alone, opens one when there is none, or closes it.** -/
theorem uses_process (hs : s.Balanced) {buffer : Bytes}
    (h : s.process w host buffer = .ok (s', w', actions)) : s.Uses w s' w' := by
  obtain ⟨⟨ok, root⟩, -, h⟩ := bind_eq_ok h
  dsimp only at h
  split at h
  · cases h
    exact ⟨.keep _, hs⟩
  · unfold onUploadFileResponse at h
    split at h
    · exact uses_takeData hs h
    · next hstate =>
      obtain ⟨⟨ok, jsonStr⟩, -, h⟩ := bind_eq_ok h
      dsimp only at h
      split at h
      · exact uses_takeHeader (not_not.1 fun hfp => hstate (hs.2 hfp)) h
      · exact uses_takeData hs h

end Fields

end FileSession

namespace FileServer

/-! ## Runs -/

/-- What happens to the server. -/
inductive Input
  | report (e : Event Conn)
  | read (conn : Conn) (host : Host) (buffer : Bytes)

/-- The server with the disk and the open streams, and the live connections. -/
structure State where
  fs : FileServer
  world : FileSession.World
  live : List Conn

namespace State

/-- The server before the first connection. -/
def start (disk : Disk) : State := ⟨{}, { disk, streams := .empty }, []⟩

/-- A step. There is none for a report that cannot come or for a read of a session that has been
destroyed, nor when the handling of a read throws. The destructor of a session leaves the streams
alone. -/
def next (s : State) : Input → Option State
  | .report e =>
    if e.Allowed Conn.address s.live then
      some { s with fs := s.fs.report e, live := e.live s.live }
    else none
  | .read conn host buffer =>
    match s.fs.sessions[printPointer conn.address]? with
    | none => none
    | some session =>
      if session.conn = conn then
        match session.fields.process s.world host buffer with
        | .error _ => none
        | .ok (fields, world, _) =>
          some { s with
            fs := { sessions := s.fs.sessions.insert (printPointer conn.address) { conn, fields } }
            world }
      else none

end State

/-! ## The streams of the sessions -/

/-- The `m_fp` of a session that is in the middle of an upload. -/
def Session.upload (session : Session) : Option ℕ :=
  if session.fields.isState then session.fields.fp else none

/-- The streams of the uploads of a table. -/
def held (table : KeyedTable Bytes Session) (key : Bytes) : Option ℕ := table[key]?.bind Session.upload

theorem Session.upload_eq {session : Session} (h : session.fields.Balanced) :
    session.upload = session.fields.fp := by
  unfold upload
  split
  · rfl
  · next hstate => exact (not_not.1 fun hfp => hstate (h.2 hfp)).symm

variable {table : KeyedTable Bytes Session} {key : Bytes}

theorem held_insert (session : Session) :
    held (table.insert key session) = Function.update (held table) key session.upload := by
  funext k
  rcases eq_or_ne k key with rfl | hne
  · rw [held, Std.ExtTreeMap.getElem?_insert_self, Option.bind_some, Function.update_self]
  · rw [Function.update_of_ne hne, held, held, Std.ExtTreeMap.getElem?_insert,
      if_neg fun h => hne (Std.compare_eq_iff_eq.1 h).symm]

theorem held_erase : held (table.erase key) = Function.update (held table) key none := by
  funext k
  rcases eq_or_ne k key with rfl | hne
  · rw [held, Std.ExtTreeMap.getElem?_erase_self, Option.bind_none, Function.update_self]
  · rw [Function.update_of_ne hne, held, held, Std.ExtTreeMap.getElem?_erase,
      if_neg fun h => hne (Std.compare_eq_iff_eq.1 h).symm]

/-- A new session has no stream. -/
theorem held_new (conn : Conn) : held (table.insertIfNew key (.new conn)) = held table := by
  funext k
  rw [held, held, Std.ExtTreeMap.getElem?_insertIfNew]
  split
  · next hnew =>
    have hkey : key = k := Std.compare_eq_iff_eq.1 hnew.1
    rw [← hkey, Std.ExtTreeMap.getElem?_eq_none hnew.2]
    rfl
  · rfl

namespace State

/-- The open streams are those of the sessions that are in the middle of an upload. -/
def NoLeak (s : State) : Prop :=
  ∀ i, (s.world.streams.file i).isSome = true ↔
    ∃ (key : Bytes) (session : Session), s.fs.sessions[key]? = some session ∧
      session.fields.isState = true ∧ session.fields.fp = some i

/-- A connection does not go down in the middle of an upload. -/
def Fits (s : State) : Input → Prop
  | .report (.down conn) => ∀ session, s.fs.sessions[printPointer conn.address]? = some session →
      session.conn = conn → session.fields.isState = false
  | _ => True

/-- The table has the sessions of the live connections, and the streams are accounted for. -/
structure Sound (s : State) : Prop where
  table : Matches Conn.key (fun conn session => session.conn = conn ∧ session.fields.Balanced) s.live
    s.fs.sessions
  account : s.world.streams.Accounted (held s.fs.sessions)

theorem sound_start (disk : Disk) : (start disk).Sound where
  table := matches_nil
  account := by
    have hnone : held (start disk).fs.sessions = fun _ => none := by
      funext key
      exact congrArg (Option.bind · Session.upload) Std.ExtTreeMap.getElem?_empty
    rw [hnone]
    exact Streams.accounted_empty

variable {s s' : State}

theorem noLeak_iff_held :
    s.NoLeak ↔ ∀ i, (s.world.streams.file i).isSome = true ↔ ∃ key, held s.fs.sessions key = some i := by
  unfold NoLeak
  refine forall_congr' fun i => iff_congr Iff.rfl (exists_congr fun key => ?_)
  rw [held, Option.bind_eq_some_iff]
  refine exists_congr fun session => and_congr_right fun _ => ?_
  unfold Session.upload
  split <;> simp [*]

theorem Sound.noLeak (hs : s.Sound) : s.NoLeak := noLeak_iff_held.2 hs.account.isSome_iff

/-- The stream of the upload of a connection that is live. -/
theorem Sound.held_eq_none_iff (hs : s.Sound) {conn : Conn} (hconn : conn ∈ s.live) :
    held s.fs.sessions (printPointer conn.address) = none ↔ s.Fits (.report (.down conn)) := by
  obtain ⟨session, hsession, hown, hbalanced⟩ := hs.table.entry conn hconn
  have hsession : s.fs.sessions[printPointer conn.address]? = some session := hsession
  have hidle : session.upload = none ↔ session.fields.isState = false := by
    have hstate : session.fields.isState = true ↔ session.fields.fp ≠ none := hbalanced
    rw [Session.upload_eq hbalanced, ← Bool.not_eq_true, hstate, not_not]
  rw [held, hsession, Option.bind_some, hidle, Fits, hsession]
  constructor
  · rintro h _ ⟨⟩ -
    exact h
  · exact fun h => h session rfl hown

/-- The sessions of the table are those of live connections. -/
theorem Sound.of_session (hs : s.Sound) {key : Bytes} {session : Session}
    (h : s.fs.sessions[key]? = some session) :
    session.conn ∈ s.live ∧ session.fields.Balanced := by
  obtain ⟨conn, hconn, rfl⟩ := hs.table.only _ _ h
  obtain ⟨hown, hbalanced⟩ := hs.table.own hconn h
  exact ⟨hown.symm ▸ hconn, hbalanced⟩

/-- **A connection that comes up has no stream.** -/
theorem Sound.up (hs : s.Sound) {conn : Conn} (h : (Event.up conn).Allowed Conn.address s.live) :
    Sound { s with fs := s.fs.report (.up conn), live := conn :: s.live } where
  table := hs.table.up ((Event.allowed_comp printPointer_injective Conn.address s.live (.up conn)).2 h)
    ⟨rfl, FileSession.Fields.balanced_idle rfl rfl⟩
  account := by
    change s.world.streams.Accounted (held (s.fs.sessions.insertIfNew _ (Session.new conn)))
    rw [held_new]
    exact hs.account

/-- **A session may go when it has no upload.** -/
theorem Sound.down (hs : s.Sound) {conn : Conn} (hconn : conn ∈ s.live)
    (hfits : s.Fits (.report (.down conn))) :
    Sound { s with fs := s.fs.report (.down conn), live := s.live.erase conn } where
  table := hs.table.down hconn
  account := by
    change s.world.streams.Accounted (held (s.fs.sessions.erase (printPointer conn.address)))
    rw [held_erase, ← (hs.held_eq_none_iff hconn).2 hfits, Function.update_eq_self]
    exact hs.account

/-- **A read uses the stream of its own session.** -/
theorem Sound.read (hs : s.Sound) {conn : Conn} {host : Host} {buffer : Bytes}
    (h : s.next (.read conn host buffer) = some s') : s'.Sound := by
  simp only [next] at h
  split at h
  · cases h
  · next session hsession =>
    split at h
    · next hown =>
      split at h
      · cases h
      · next fields world actions hprocess =>
        cases h
        obtain ⟨hlive, hbalanced⟩ := hs.of_session hsession
        rw [hown] at hlive
        have huses := FileSession.Fields.uses_process hbalanced hprocess
        refine ⟨hs.table.change hlive ⟨rfl, huses.balanced⟩, ?_⟩
        have hheld : held s.fs.sessions (printPointer conn.address) = session.fields.fp := by
          rw [held, hsession, Option.bind_some, Session.upload_eq hbalanced]
        dsimp only
        rw [held_insert, Session.upload_eq huses.balanced]
        exact hs.account.use (hheld ▸ huses.use)
    · cases h

/-- A step that the condition allows keeps the account. -/
theorem sound_next {i : Input} (hs : s.Sound) (hfits : s.Fits i) (h : s.next i = some s') :
    s'.Sound := by
  cases i with
  | report e =>
    simp only [next] at h
    split at h
    · next hallowed =>
      cases h
      cases e with
      | up conn => exact hs.up hallowed
      | down conn => exact hs.down hallowed hfits
    · cases h
  | read conn host buffer => exact hs.read h

/-- **A step leaks nothing exactly when it meets the condition.** -/
theorem noLeak_next_iff (hs : s.Sound) (i : Input) :
    (∀ s', s.next i = some s' → s'.NoLeak) ↔ s.Fits i := by
  constructor
  · intro h
    cases i with
    | read conn host buffer => trivial
    | report e =>
      cases e with
      | up conn => trivial
      | down conn =>
        by_cases hconn : conn ∈ s.live
        · have hnext : s.next (.report (.down conn)) = some { s with
              fs := s.fs.report (.down conn), live := s.live.erase conn } := if_pos hconn
          have hleft := noLeak_iff_held.1 (h _ hnext)
          change ∀ i, (s.world.streams.file i).isSome = true ↔
            ∃ key, held (s.fs.sessions.erase (printPointer conn.address)) key = some i at hleft
          rw [held_erase, hs.account.isSome_iff_update_none] at hleft
          exact (hs.held_eq_none_iff hconn).1 hleft
        · intro session hsession hown
          exact absurd (hown ▸ (hs.of_session hsession).1) hconn
  · exact fun hfits s' h => (sound_next hs hfits h).noLeak

/-- **No state that a run reaches leaks a handle exactly when no connection of the run goes down in the
middle of its upload.** -/
theorem noLeak_iff (disk : Disk) (inputs : List Input) :
    Along next (fun s i => ∀ s', s.next i = some s' → s'.NoLeak) (start disk) inputs ↔
      Along next Fits (start disk) inputs :=
  along_iff Sound (fun _ i hs => noLeak_next_iff hs i) (fun _ _ _ => sound_next) inputs _
    (sound_start disk)

/-! ## An upload that is cut off -/

/-- A connection that goes down behind the header of an upload. -/
def cutOffInputs : List Input :=
  [.report (.up ⟨0, 0x7F00⟩),
    .read ⟨0, 0x7F00⟩ FileSession.quietHost FileSession.pageHeader.text,
    .report (.down ⟨0, 0x7F00⟩)]

/-- The stream of the upload stays open without a session. -/
theorem not_noLeak :
    ¬ ∀ (disk : Disk) (inputs : List Input),
      Along next (fun s i => ∀ s', s.next i = some s' → s'.NoLeak) (start disk) inputs := by
  intro h
  have hrun : (cutOffInputs.foldlM next (start fun _ => none)).map (fun s =>
      ((s.world.streams.file 0).isSome, s.fs.sessions.toList.length)) = some (true, 0) := by
    decide +kernel
  obtain ⟨s, hs, heq⟩ := Option.map_eq_some_iff.1 hrun
  obtain ⟨hopen, hempty⟩ := Prod.mk.inj heq
  simp only [cutOffInputs, List.foldlM_cons, List.foldlM_nil, Option.bind_eq_bind,
    Option.bind_eq_some_iff] at hs
  obtain ⟨s₁, hup, s₂, hread, s₃, hdown, hs⟩ := hs
  cases hs
  have hleft : s.NoLeak := (((h _ cutOffInputs).2 s₁ hup).2 s₂ hread).1 s hdown
  obtain ⟨key, session, hsession, -⟩ := (hleft 0).1 hopen
  have hmem := Std.ExtTreeMap.mem_toList_iff_getElem?_eq_some.2 hsession
  rw [List.length_eq_zero_iff.1 hempty] at hmem
  cases hmem

end State

end FileServer

end GraduationServer
