import GraduationServer.Foundations.Simulations
import GraduationServer.Servers.Passages

/-!
# Downloads of uploaded files

The file server as a store. A client uploads a file on one connection, in any number of reads; meanwhile and
afterwards others come and go, upload files of their own and ask for files, and some go in the middle of an
upload. As long as nobody else uploads to the same path, the file has the bytes of the upload when that is
finished (`Receiving.run`), keeps them (`Stored.run`), and a request for its name on any connection gets
them in one response (`upload_served`).
-/

namespace GraduationServer

open Json Registry Http FileSession

namespace FileServer

/-- The sessions of the table are those of the live connections. -/
def Session.Own (conn : Conn) (session : Session) : Prop := session.conn = conn ∧ session.fields.Settled

theorem upload_of_settled {session : Session} (h : session.fields.Settled) :
    session.upload = session.fields.fp :=
  Session.upload_eq h.state

/-- What a read of a connection is. -/
def Input.readOf (conn : Conn) : Input → Option (Host × Bytes)
  | .report _ => none
  | .read conn' host buffer => if conn' = conn then some (host, buffer) else none

namespace State

/-! ## What every step keeps -/

/-- The table has the sessions of the live connections, and no two of them have the same stream. -/
structure Tidy (s : State) : Prop where
  table : Matches Conn.key Session.Own s.live s.fs.sessions
  separate : s.world.streams.Separate (held s.fs.sessions)

theorem held_start (disk : Disk) : held (start disk).fs.sessions = fun _ => none := by
  funext key
  exact congrArg (Option.bind · Session.upload) Std.ExtTreeMap.getElem?_empty

theorem tidy_start (disk : Disk) : (start disk).Tidy where
  table := matches_nil
  separate := by
    rw [held_start]
    exact Streams.separate_empty

variable {s s' : State} {conn : Conn} {session : Session} {key : Bytes}

theorem Tidy.of_session (hs : s.Tidy) (h : s.fs.sessions[key]? = some session) :
    session.conn ∈ s.live ∧ session.conn.key = key ∧ session.fields.Settled := by
  obtain ⟨conn, hconn, rfl⟩ := hs.table.only _ _ h
  obtain ⟨rfl, hsettled⟩ := hs.table.own hconn h
  exact ⟨hconn, rfl, hsettled⟩

theorem Tidy.held_eq (hs : s.Tidy) (h : s.fs.sessions[key]? = some session) :
    held s.fs.sessions key = session.fields.fp := by
  rw [held, h, Option.bind_some, upload_of_settled (hs.of_session h).2.2]

/-- **A read goes to the session of its connection**, which makes one passage. -/
theorem next_read {host : Host} {buffer : Bytes} (hs : s.Tidy)
    (h : s.next (.read conn host buffer) = some s') :
    ∃ session fields world actions, s.fs.sessions[conn.key]? = some session ∧ session.conn = conn ∧
      session.fields.process s.world host buffer = .ok (fields, world, actions) ∧
      Passage host session.fields s.world fields world actions ∧
      s' = { s with fs := { sessions := s.fs.sessions.insert conn.key { conn, fields } }, world } := by
  simp only [next] at h
  split at h
  · cases h
  · next session hsession =>
    split at h
    · next hown =>
      split at h
      · cases h
      · next fields world actions hprocess =>
        cases h
        exact ⟨session, fields, world, actions, hsession, hown, hprocess,
          passage_process (hs.of_session hsession).2.2 hprocess, rfl⟩
    · cases h

theorem held_change {fields : Fields} (h : fields.Settled) :
    held (s.fs.sessions.insert conn.key { conn, fields }) =
      Function.update (held s.fs.sessions) conn.key fields.fp := by
  rw [held_insert, upload_of_settled h]

/-- **Every step keeps it**, also when a connection goes down in the middle of an upload. -/
theorem Tidy.next {i : Input} (hs : s.Tidy) (h : s.next i = some s') : s'.Tidy := by
  cases i with
  | report e =>
    simp only [State.next] at h
    split at h
    · next hallowed =>
      cases h
      cases e with
      | up conn =>
        refine ⟨hs.table.up ((Event.allowed_comp printPointer_injective Conn.address s.live
          (.up conn)).2 hallowed) ⟨rfl, settled_new⟩, ?_⟩
        change s.world.streams.Separate (held (s.fs.sessions.insertIfNew _ (Session.new conn)))
        rw [held_new]
        exact hs.separate
      | down conn =>
        refine ⟨hs.table.down hallowed, ?_⟩
        change s.world.streams.Separate (held (s.fs.sessions.erase (printPointer conn.address)))
        rw [held_erase]
        exact hs.separate.drop _
    · cases h
  | read conn host buffer =>
    obtain ⟨session, fields, world, actions, hsession, rfl, -, hpassage, rfl⟩ := next_read hs h
    obtain ⟨hlive, -, hsettled⟩ := hs.of_session hsession
    have hsettled' := hpassage.settled hsettled
    refine ⟨hs.table.change hlive ⟨rfl, hsettled'⟩, ?_⟩
    dsimp only
    rw [held_change hsettled']
    exact hs.separate.use (hs.held_eq hsession ▸ hpassage.use)

/-! ## A file that is stored -/

/-- The file has a content, and no session has it open. -/
structure Stored (s : State) (path content : Bytes) : Prop where
  disk : s.world.disk path = some content
  closed : ∀ key i, held s.fs.sessions key = some i → s.world.streams.file i ≠ some path

/-- A step does not open the file, and the commands of the host leave it alone. -/
def Spares (path : Bytes) (s : State) : Input → Prop
  | .report _ => True
  | .read conn host buffer => host.Spares path ∧
      ∀ session fields world actions, s.fs.sessions[conn.key]? = some session →
        session.fields.process s.world host buffer = .ok (fields, world, actions) →
          Action.fopen path ∉ actions

variable {path content : Bytes} {i : Input}

theorem held_report {e : Event Conn} {key : Bytes} {j : ℕ}
    (h : held (s.fs.report e).sessions key = some j) : held s.fs.sessions key = some j := by
  cases e with
  | up conn =>
    change held (s.fs.sessions.insertIfNew _ (Session.new conn)) key = some j at h
    rwa [held_new] at h
  | down conn =>
    change held (s.fs.sessions.erase (printPointer conn.address)) key = some j at h
    rw [held_erase] at h
    rcases eq_or_ne key (printPointer conn.address) with rfl | hne
    · rw [Function.update_self] at h
      cases h
    · rwa [Function.update_of_ne hne] at h

/-- **A stored file stays as it is.** -/
theorem Stored.next (h : s.Stored path content) (hs : s.Tidy) (hspares : s.Spares path i)
    (hnext : s.next i = some s') : s'.Stored path content := by
  cases i with
  | report e =>
    simp only [State.next] at hnext
    split at hnext
    · cases hnext
      exact ⟨h.disk, fun key j hj => h.closed key j (held_report hj)⟩
    · cases hnext
  | read conn host buffer =>
    obtain ⟨session, fields, world, actions, hsession, rfl, hprocess, hpassage, rfl⟩ := next_read hs hnext
    have hsettled := (hs.of_session hsession).2.2
    have hheld := hs.held_eq hsession
    obtain ⟨hdisk, hfree⟩ := hpassage.elsewhere (fun j hj => h.closed _ j (hheld.trans hj))
      (hspares.2 _ _ _ _ hsession hprocess) hspares.1
    refine ⟨hdisk.trans h.disk, fun key j hj => ?_⟩
    dsimp only at hj ⊢
    rw [held_change (hpassage.settled hsettled)] at hj
    rcases eq_or_ne key session.conn.key with rfl | hne
    · rw [Function.update_self] at hj
      exact hfree j hj
    · rw [Function.update_of_ne hne] at hj
      rw [hpassage.use.file_of_ne (hs.separate.lt_next key j hj)]
      · exact h.closed key j hj
      · exact fun hown => hne (hs.separate.unique key _ j hj (hheld.trans hown))

theorem Stored.run {inputs : List Input} (h : s.Stored path content) (hs : s.Tidy)
    (hspares : Along State.next (fun s i => s.Spares path i) s inputs)
    (hrun : inputs.foldlM State.next s = some s') : s'.Tidy ∧ s'.Stored path content := by
  induction inputs generalizing s with
  | nil =>
    cases hrun
    exact ⟨hs, h⟩
  | cons i inputs ih =>
    rw [List.foldlM_cons] at hrun
    obtain ⟨t, hnext, hrest⟩ := Option.bind_eq_some_iff.1 hrun
    obtain ⟨hspare, hbehind⟩ := (along_cons _ _ _).1 hspares
    exact ih (h.next hs hspare hnext) (hs.next hnext) (hbehind t hnext) hrest

/-! ## A file that is received -/

/-- The session of a connection is in the middle of an upload, of which some bytes have come; no other
session has the file open. -/
structure Receiving (s : State) (conn : Conn) (header : UploadHeader) (data : Bytes) : Prop where
  session : ∃ i, s.fs.sessions[conn.key]? = some ⟨conn, receiving header i data.length⟩ ∧
    s.world.streams.file i = some header.path ∧ s.world.Keeps i header.path data
  alone : ∀ key i, held s.fs.sessions key = some i → s.world.streams.file i = some header.path →
    key = conn.key

variable {header : UploadHeader} {data : Bytes}

/-- **The header of an upload is accepted.** -/
theorem receiving_of_header {host : Host} (hs : s.Tidy)
    (hidle : s.fs.sessions[conn.key]? = some ⟨conn, {}⟩) (hopen : host.opens header.path = true)
    (hfree : ∀ key i, held s.fs.sessions key = some i → s.world.streams.file i ≠ some header.path)
    (hnext : s.next (.read conn host header.text) = some s') : s'.Receiving conn header [] := by
  obtain ⟨session, fields, world, actions, hsession, -, hprocess, -, rfl⟩ := next_read hs hnext
  obtain rfl := Option.some_inj.1 (hidle.symm.trans hsession)
  rw [process_accepted header hopen] at hprocess
  cases hprocess
  have hnew : (s.world.streams.opened header.path).file s.world.streams.next = some header.path :=
    Streams.target_opened ..
  refine ⟨⟨_, Std.ExtTreeMap.getElem?_insert_self, hnew, [], Disk.write_self .., Function.update_self ..⟩,
    fun key i hi hfile => ?_⟩
  dsimp only at hi hfile
  rw [held_insert] at hi
  by_contra hne
  rw [Function.update_of_ne hne] at hi
  rw [Streams.file_opened_of_ne _ _ (hs.separate.lt_next key i hi).ne] at hfile
  exact hfree key i hi hfile

/-- **Others leave the upload alone.** -/
theorem Receiving.other (h : s.Receiving conn header data) (hs : s.Tidy) (hother : i.readOf conn = none)
    (hup : i ≠ .report (.down conn)) (hspares : s.Spares header.path i) (hnext : s.next i = some s') :
    s'.Receiving conn header data := by
  obtain ⟨j, hsession, hfile, hkeeps⟩ := h.session
  cases i with
  | report e =>
    simp only [State.next] at hnext
    split at hnext
    · next hallowed =>
      cases hnext
      refine ⟨⟨j, ?_, hfile, hkeeps⟩, fun key i hi => h.alone key i (held_report hi)⟩
      cases e with
      | up conn' =>
        change (s.fs.sessions.insertIfNew _ _)[conn.key]? = _
        rw [Std.ExtTreeMap.getElem?_insertIfNew, if_neg, hsession]
        rintro ⟨hkey, hnew⟩
        rw [Std.compare_eq_iff_eq.1 hkey, Std.ExtTreeMap.mem_iff_isSome_getElem?, hsession] at hnew
        exact hnew rfl
      | down conn' =>
        have hne : conn' ≠ conn := by
          rintro rfl
          exact hup rfl
        have hkey : conn'.key ≠ conn.key := fun heq =>
          hne (List.inj_on_of_nodup_map hs.table.distinct hallowed (hs.of_session hsession).1 heq)
        change (s.fs.sessions.erase conn'.key)[conn.key]? = _
        rw [Std.ExtTreeMap.getElem?_erase, if_neg fun heq => hkey (Std.compare_eq_iff_eq.1 heq), hsession]
    · cases hnext
  | read conn' host buffer =>
    obtain ⟨session', fields, world, actions, hsession', rfl, hprocess, hpassage, rfl⟩ :=
      next_read hs hnext
    have hne : session'.conn ≠ conn := by
      intro heq
      rw [Input.readOf, if_pos heq] at hother
      cases hother
    have hkey : session'.conn.key ≠ conn.key := by
      intro heq
      rw [heq, hsession] at hsession'
      cases hsession'
      exact hne rfl
    have hheld := hs.held_eq hsession
    have hheld' := hs.held_eq hsession'
    have hsettled := hpassage.settled (hs.of_session hsession').2.2
    have hkept : ∀ key i, held s.fs.sessions key = some i → key ≠ session'.conn.key →
        world.streams.file i = s.world.streams.file i := fun key i hi hkey =>
      hpassage.use.file_of_ne (hs.separate.lt_next key i hi) fun hown =>
        hkey (hs.separate.unique key _ i hi (hheld'.trans hown))
    obtain ⟨hdisk, hfree⟩ := hpassage.elsewhere
      (fun i hi hpath => hkey (h.alone _ i (hheld'.trans hi) hpath))
      (hspares.2 _ _ _ _ hsession' hprocess) hspares.1
    refine ⟨⟨j, ?_, ?_, ?_⟩, fun key i hi hpath => ?_⟩
    · exact (Std.ExtTreeMap.getElem?_insert ..).trans
        ((if_neg fun heq => hkey (Std.compare_eq_iff_eq.1 heq)).trans hsession)
    · exact (hkept conn.key j hheld hkey.symm).trans hfile
    · obtain ⟨written, hwritten, hdata⟩ := hkeeps
      have hbuffer : world.buffers j = s.world.buffers j :=
        hpassage.buffers_eq (hs.separate.lt_next _ j hheld) fun hown =>
          hkey (hs.separate.unique _ _ j (hheld'.trans hown) hheld)
      exact ⟨written, hdisk.trans hwritten, by rw [hbuffer, hdata]⟩
    · dsimp only at hi hpath
      rw [held_change hsettled] at hi
      rcases eq_or_ne key session'.conn.key with rfl | hne'
      · rw [Function.update_self] at hi
        exact absurd hpath (hfree i hi)
      · rw [Function.update_of_ne hne'] at hi
        rw [hkept key i hi hne'] at hpath
        exact h.alone key i hi hpath

/-- **A read of the upload adds its bytes**, and the last one closes the file. -/
theorem Receiving.own {host : Host} {buffer : Bytes} (h : s.Receiving conn header data) (hs : s.Tidy)
    (hpasses : Passes buffer) (hne : buffer ≠ []) (hwrite : host.writeError = none)
    (hclose : host.closeError = none) (hvideo : contains (ascii ".mp4") header.fileName = false)
    (hle : data.length + buffer.length ≤ header.fileSize)
    (hnext : s.next (.read conn host buffer) = some s') :
    if (data.length : ℤ) + buffer.length < header.fileSize then s'.Receiving conn header (data ++ buffer)
    else s'.Stored header.path (data ++ buffer) := by
  obtain ⟨i, hsession, hfile, hkeeps⟩ := h.session
  have hheld := hs.held_eq hsession
  obtain ⟨session, fields, world, actions, hsession', -, hprocess, -, rfl⟩ := next_read hs hnext
  obtain rfl := Option.some_inj.1 (hsession.symm.trans hsession')
  obtain ⟨fields', world', actions', hprocess', hcases⟩ :=
    process_receiving hfile hkeeps hpasses hne hwrite hclose hvideo hle
  rw [hprocess] at hprocess'
  cases hprocess'
  split
  · next hlt =>
    rw [if_pos hlt] at hcases
    obtain ⟨rfl, hstreams, hkeeps'⟩ := hcases
    refine ⟨⟨i, Std.ExtTreeMap.getElem?_insert_self, by rw [hstreams, hfile], hkeeps'⟩,
      fun key j hj hpath => ?_⟩
    dsimp only at hj hpath
    rw [held_insert] at hj
    rw [hstreams] at hpath
    by_contra hkey
    rw [Function.update_of_ne hkey] at hj
    exact hkey (h.alone key j hj hpath)
  · next hlt =>
    rw [if_neg hlt] at hcases
    obtain ⟨rfl, hstreams, hdisk⟩ := hcases
    refine ⟨hdisk, fun key j hj hpath => ?_⟩
    dsimp only at hj hpath
    rw [held_insert] at hj
    rcases eq_or_ne key conn.key with rfl | hkey
    · rw [Function.update_self] at hj
      cases hj
    · rw [Function.update_of_ne hkey] at hj
      have hji : j ≠ i := by
        rintro rfl
        exact hkey (hs.separate.unique key _ j hj hheld)
      rw [hstreams, Streams.file_closed_of_ne _ hji] at hpath
      exact hkey (h.alone key j hj hpath)

/-- While an upload is going on its connection stays up, and the others leave the file alone. -/
def Undisturbed (conn : Conn) (path : Bytes) (s : State) (i : Input) : Prop :=
  i.readOf conn = none → i ≠ .report (.down conn) ∧ s.Spares path i

theorem readOf_eq_some {read : Host × Bytes} (h : i.readOf conn = some read) :
    i = .read conn read.1 read.2 := by
  cases i with
  | report e => cases h
  | read conn' host buffer =>
    rw [Input.readOf] at h
    split at h
    · next heq =>
      cases h
      rw [heq]
    · cases h

/-- **The file of an upload holds its bytes**, by induction on the run. -/
theorem Receiving.run {inputs : List Input} (h : s.Receiving conn header data) (hs : s.Tidy)
    (hcontent : IsContent (inputs.filterMap (Input.readOf conn)))
    (hpasses : ∀ read ∈ inputs.filterMap (Input.readOf conn), Passes read.2)
    (hvideo : contains (ascii ".mp4") header.fileName = false) (hlt : data.length < header.fileSize)
    (hsize : data.length + (FileSession.content (inputs.filterMap (Input.readOf conn))).length =
      header.fileSize)
    (hothers : Along State.next (Undisturbed conn header.path) s inputs)
    (hrun : inputs.foldlM State.next s = some s') :
    s'.Tidy ∧
      s'.Stored header.path (data ++ FileSession.content (inputs.filterMap (Input.readOf conn))) := by
  induction inputs generalizing s data with
  | nil =>
    have hzero : (FileSession.content ([].filterMap (Input.readOf conn))).length = 0 := rfl
    omega
  | cons i inputs ih =>
    rw [List.foldlM_cons] at hrun
    obtain ⟨t, hnext, hrest⟩ := Option.bind_eq_some_iff.1 hrun
    obtain ⟨hother, hlater⟩ := (along_cons _ _ _).1 hothers
    have hbehind := hlater t hnext
    have ht := hs.next hnext
    cases hread : i.readOf conn with
    | none =>
      rw [List.filterMap_cons_none hread] at hcontent hpasses hsize ⊢
      obtain ⟨hup, hspares⟩ := hother hread
      exact ih (h.other hs hread hup hspares hnext) ht hcontent hpasses hlt hsize hbehind hrest
    | some read =>
      obtain ⟨host, buffer⟩ := read
      obtain rfl : i = .read conn host buffer := readOf_eq_some hread
      rw [List.filterMap_cons_some hread] at hcontent hpasses hsize ⊢
      have hlength := length_content_cons host buffer (inputs.filterMap (Input.readOf conn))
      have hpass : Passes buffer := hpasses _ List.mem_cons_self
      have hbuffer : buffer ≠ [] := hcontent.nonempty _ List.mem_cons_self
      have hown := h.own hs hpass hbuffer (hcontent.written _ List.mem_cons_self)
        (hcontent.closed _ List.mem_cons_self) hvideo (by omega) hnext
      rw [content_cons, ← List.append_assoc]
      dsimp only
      split at hown
      · refine ih hown ht hcontent.tail (fun read hread => hpasses read (List.mem_cons_of_mem _ hread)) ?_ ?_
          hbehind hrest
        · rw [List.length_append]
          omega
        · rw [List.length_append]
          omega
      · next hlast =>
        -- nothing more comes of the upload
        have hnone : inputs.filterMap (Input.readOf conn) = [] := by
          refine List.eq_nil_iff_forall_not_mem.2 fun read hread => ?_
          have := hcontent.tail.length_pos hread
          omega
        rw [hnone, show FileSession.content [] = [] from rfl, List.append_nil]
        refine hown.run ht ?_ hrest
        have hquiet : ∀ j ∈ inputs, j.readOf conn = none := List.filterMap_eq_nil_iff.1 hnone
        exact hbehind.imp fun j hj t hundisturbed => (hundisturbed (hquiet j hj)).2

/-- **What is uploaded is what is downloaded.** In any run of the file server, with any number of
connections whose events and reads come in any order: a client uploads a file, in any reads, while the others
leave this file alone; and they go on to do so. Then a request for the file gets one response, whatever the
session that it comes to is doing, and the body is what was uploaded. -/
theorem upload_served {disk : Disk} {before during behind : List Input} {s₀ s₁ s₂ s₃ : State} {host : Host}
    (hname : Downloadable header.fileName) (hbefore : before.foldlM State.next (start disk) = some s₀)
    (hidle : ∃ session, s₀.fs.sessions[conn.key]? = some session ∧ session.conn = conn ∧
      session.fields.isState = false)
    (hopen : host.opens header.path = true)
    (hfree : ∀ key i, held s₀.fs.sessions key = some i → s₀.world.streams.file i ≠ some header.path)
    (hheader : s₀.next (.read conn host header.text) = some s₁)
    (hcontent : IsContent (during.filterMap (Input.readOf conn)))
    (hpasses : ∀ read ∈ during.filterMap (Input.readOf conn), Passes read.2)
    (hsize : (FileSession.content (during.filterMap (Input.readOf conn))).length = header.fileSize)
    (hothers : Along State.next (Undisturbed conn header.path) s₁ during)
    (hduring : during.foldlM State.next s₁ = some s₂)
    (hspares : Along State.next (fun s i => s.Spares header.path i) s₂ behind)
    (hbehind : behind.foldlM State.next s₂ = some s₃) (fields : Fields) (host' : Host)
    (version rest : Bytes) :
    ∃ actions r, fields.process s₃.world host' (getRequest header.fileName version rest) =
        .ok (fields, s₃.world, actions) ∧
      sent actions = Response.code r ∧
      r.body = FileSession.content (during.filterMap (Input.readOf conn)) := by
  have hs₀ : s₀.Tidy := foldlM_keeps Tidy (fun _ _ _ hs h => hs.next h) (tidy_start disk) hbefore
  obtain ⟨⟨_, idle⟩, hfound, rfl, hstate⟩ := hidle
  have hnew : idle = {} := by
    have hsettled : idle.Settled := (hs₀.of_session hfound).2.2
    refine hsettled.reset (not_not.1 fun hfp => ?_)
    rw [hsettled.state.2 hfp] at hstate
    cases hstate
  subst hnew
  have hpos := header.pos
  have hreceiving := receiving_of_header hs₀ hfound hopen hfree hheader
  obtain ⟨hs₂, hstored⟩ := hreceiving.run (hs₀.next hheader) hcontent hpasses hname.noVideo
    (by rw [List.length_nil]; omega) (by rw [List.length_nil]; omega) hothers hduring
  obtain ⟨-, hkept⟩ := hstored.run hs₂ hspares hbehind
  obtain ⟨r, hsent, hbody⟩ := get_downloadable hname hkept.disk host'.media version rest
  have hhttp := isHTTPProtocol_getRequest version rest header.fileName
  refine ⟨_, r, ?_, hsent, hbody⟩
  simp [Fields.process, orThrow, bind, Except.bind, pure, Except.pure, parse_of_isHTTPProtocol hhttp, hhttp]

/-- While the page is uploaded another client comes. -/
def pageInputs : List Input :=
  [.report (.up ⟨1, 0x7F80⟩), .read ⟨0, 0x7F00⟩ quietHost (ascii "<p>")]

/-- A client uploads the page and goes. -/
def pageRun : List Input :=
  [.report (.up ⟨0, 0x7F00⟩)] ++
    .read ⟨0, 0x7F00⟩ quietHost pageHeader.text :: (pageInputs ++ [.report (.down ⟨0, 0x7F00⟩)])

/-- The page is there for the other client. -/
theorem upload_served_page :
    ∃ s, pageRun.foldlM State.next (start fun _ => none) = some s ∧ ∃ actions r,
      Fields.process {} s.world quietHost (getRequest (ascii "a.html") (ascii "HTTP/1.1") (ascii "\r\n")) =
          .ok ({}, s.world, actions) ∧
        sent actions = Response.code r ∧ r.body = ascii "<p>" := by
  have hrun : (pageRun.foldlM State.next (start fun _ => none)).isSome = true := by decide +kernel
  obtain ⟨s₃, hs₃⟩ := Option.isSome_iff_exists.1 hrun
  refine ⟨s₃, hs₃, ?_⟩
  have hbefore : [Input.report (.up ⟨0, 0x7F00⟩)].foldlM State.next (start fun _ => none) =
      some ⟨FileServer.report {} (.up ⟨0, 0x7F00⟩), { disk := fun _ => none, streams := .empty },
        [⟨0, 0x7F00⟩]⟩ := rfl
  rw [pageRun, List.foldlM_append, hbefore, Option.bind_eq_bind, Option.bind_some, List.foldlM_cons] at hs₃
  obtain ⟨s₁, hheader, hs₁⟩ := Option.bind_eq_some_iff.1 hs₃
  rw [List.foldlM_append] at hs₁
  obtain ⟨s₂, hduring, hbehind⟩ := Option.bind_eq_some_iff.1 hs₁
  have hname : Downloadable pageHeader.fileName :=
    ⟨servable_page, by decide, by decide, fun _ => by decide⟩
  have hfound : (FileServer.report {} (.up ⟨0, 0x7F00⟩)).sessions[Conn.key ⟨0, 0x7F00⟩]? =
      some (Session.new ⟨0, 0x7F00⟩) := by
    change ((∅ : KeyedTable Bytes Session).insertIfNew _ _)[_]? = _
    rw [Std.ExtTreeMap.getElem?_insertIfNew,
      if_pos ⟨Std.ReflCmp.compare_self, Std.ExtTreeMap.not_mem_empty⟩]
  have hcontent : IsContent (pageInputs.filterMap (Input.readOf ⟨0, 0x7F00⟩)) :=
    isContent_page (by decide)
  have hpasses : ∀ read ∈ pageInputs.filterMap (Input.readOf ⟨0, 0x7F00⟩), Passes read.2 := by
    intro read hread
    rw [show read = (quietHost, ascii "<p>") from List.mem_singleton.1 hread]
    exact ⟨by decide, Option.ne_none_iff_isSome.2 (by decide +kernel)⟩
  refine upload_served hname hbefore ⟨_, hfound, rfl, rfl⟩ rfl ?_ hheader hcontent hpasses rfl ?_ hduring ?_
    hbehind {} quietHost _ _
  · intro key i hi
    have hnone := held_report (s := start fun _ => none) (e := .up ⟨0, 0x7F00⟩) hi
    rw [held_start] at hnone
    cases hnone
  · exact ⟨fun _ => ⟨nofun, trivial⟩, fun _ _ => ⟨nofun, fun _ _ => trivial⟩⟩
  · exact ⟨trivial, fun _ _ => trivial⟩

end State

end FileServer

end GraduationServer
