import GraduationServer.Client.Favourites
import GraduationServer.Servers.Published

/-!
# Uploads outlast the process

What a client has been told is uploaded is in the database. So when the process ends, at any point of any
run, and is started again, its caches have the files that it had at the start and all that clients have
uploaded with success since (`published_durable`): a listing shows what it showed before, though maybe in
another order, since a query may return the rows in any order.

The texts of the requests have to be without quotes and backslashes, which the statements do not escape.
-/

namespace GraduationServer

open Json QuotedText

/-! ## The lists of the files -/

/-- Lists that mirror one table differ in their order at most. -/
theorem Mirrors.perm {notNull : List Bytes} {t : Table notNull} {ρ : Type}
    {read : (Bytes → Option Bytes) → Option ρ} {cache cache' : List ρ} (h : Mirrors read t cache)
    (h' : Mirrors read t cache') : cache.Perm cache' :=
  (List.map_perm_map_iff (Option.some_injective ρ)).1 (h.trans h'.symm)

/-- The lists of the files mirror their tables. -/
structure Catalogued (s : Server) : Prop where
  video : Mirrors readVideoInfo s.db.videoData s.manager.cacheVideoInfo
  audio : Mirrors readAudioInfo s.db.audioData s.manager.cacheAudioInfo
  word : Mirrors readWordInfo s.db.textData s.manager.cacheWordInfo

variable {s : Server} {w : Write} {a : Attempt}

theorem catalogued_init {db : Database} {answers : Answers db} {m : UserManager}
    (h : init db answers = some (true, m)) : Catalogued ⟨db, m⟩ :=
  have hmirror := mirror_init h
  ⟨hmirror.video, hmirror.audio, hmirror.word⟩

theorem Catalogued.write {change : UserManager → UserManager} (hplain : ∀ v ∈ w.values, Plain v)
    (h : Catalogued s)
    (hchange : ∀ db, w.shape.effect w.values a s.db = some db → Catalogued ⟨db, change s.manager⟩) :
    Catalogued (s.write w a change).2 := by
  rcases s.write_cases w a change with ⟨-, hwrite⟩ | ⟨db, hexcute, hwrite⟩
  · rw [hwrite]
    exact h
  · rw [hwrite]
    exact hchange db (effect_of_excute hplain hexcute)

/-- **Every call keeps the lists of the files right**, also the removal of a favourite. -/
theorem Catalogued.call (h : Catalogued s) (hplain : ∀ v ∈ w.values, Plain v) :
    Catalogued (s.call w a).2 := by
  cases w with
  | addUser user =>
    refine Catalogued.write hplain ⟨h.video, h.audio, h.word⟩ fun db hdb => ?_
    obtain ⟨t, -, rfl⟩ := Option.map_eq_some_iff.1 hdb
    exact ⟨h.video, h.audio, h.word⟩
  | addWordInfoFromDB info =>
    refine Catalogued.write hplain h fun db hdb => ?_
    obtain ⟨t, ht, rfl⟩ := Option.map_eq_some_iff.1 hdb
    refine ⟨h.video, h.audio, h.word.insert ht ?_⟩
    simp only [readWordInfo, value_newRow ht (ascii "t_id") rfl,
      value_newRow ht (ascii "t_upName") rfl, value_newRow ht (ascii "t_data") rfl,
      value_newRow ht (ascii "t_title") rfl, value_newRow ht (ascii "t_courses") rfl,
      value_newRow ht (ascii "t_uID") rfl]
    rfl
  | addVideoInfoFromDB info =>
    refine Catalogued.write hplain h fun db hdb => ?_
    obtain ⟨t, ht, rfl⟩ := Option.map_eq_some_iff.1 hdb
    refine ⟨h.video.insert ht ?_, h.audio, h.word⟩
    simp only [readVideoInfo, value_newRow ht (ascii "v_id") rfl,
      value_newRow ht (ascii "v_upName") rfl, value_newRow ht (ascii "v_filePath") rfl,
      value_newRow ht (ascii "v_videoTitle") rfl, value_newRow ht (ascii "v_headImgPath") rfl,
      value_newRow ht (ascii "v_synopsis") rfl, value_newRow ht (ascii "v_courses") rfl,
      value_newRow ht (ascii "v_uID") rfl]
    rfl
  | addAudioInfoFromDB info =>
    refine Catalogued.write hplain h fun db hdb => ?_
    obtain ⟨t, ht, rfl⟩ := Option.map_eq_some_iff.1 hdb
    refine ⟨h.video, h.audio.insert ht ?_, h.word⟩
    simp only [readAudioInfo, value_newRow ht (ascii "a_id") rfl,
      value_newRow ht (ascii "a_upName") rfl, value_newRow ht (ascii "a_filePath") rfl,
      value_newRow ht (ascii "a_audioTitle") rfl, value_newRow ht (ascii "a_headImgPath") rfl,
      value_newRow ht (ascii "a_courses") rfl, value_newRow ht (ascii "a_uID") rfl]
    rfl
  | removeOneCollectInfo uID assetsTitle assetsType =>
    simp only [Server.call, Server.removeOneCollectInfo]
    split
    · refine Catalogued.write hplain h fun db hdb => ?_
      obtain ⟨t, -, rfl⟩ := Option.map_eq_some_iff.1 hdb
      exact ⟨h.video, h.audio, h.word⟩
    · exact h
  | addBrowseInfoFromDB bId bUID bAssetsType bAssetsTitle =>
    refine Catalogued.write hplain h fun db hdb => ?_
    obtain ⟨t, -, rfl⟩ := Option.map_eq_some_iff.1 hdb
    exact ⟨h.video, h.audio, h.word⟩
  | addCollectInfoFromDB cId cUID cAssetsType cAssetsTitle =>
    refine Catalogued.write hplain h fun db hdb => ?_
    obtain ⟨t, -, rfl⟩ := Option.map_eq_some_iff.1 hdb
    exact ⟨h.video, h.audio, h.word⟩

/-- **A process that is started again has the same files.** -/
theorem Catalogued.restart (h : Catalogued s) {answers : Answers s.db} {m : UserManager}
    (hinit : init s.db answers = some (true, m)) (type : AssetType) :
    (m.assets type).Perm (s.manager.assets type) := by
  have hloaded := catalogued_init hinit
  cases type with
  | video => exact (hloaded.video.perm h.video).map _
  | audio => exact (hloaded.audio.perm h.audio).map _
  | text => exact (hloaded.word.perm h.word).map _

namespace ClientSession

/-! ## Plain texts -/

/-- The texts of a message have neither a quote nor a backslash. -/
def PlainTexts (data : Bytes) : Prop :=
  ∀ root key v, Reader.parse data = some (true, root) → root.stringMember key = some v → Plain v

/-- Nor have the identifiers of the users. -/
def PlainUsers (m : UserManager) : Prop := ∀ u ∈ m.cachedUsers, Plain u.uID

variable {s' : Server} {e : Surroundings} {data : Bytes} {root : Value} {replies : List Reply}

theorem plainTexts_of_members {members : List (Bytes × Value)}
    (hparse : Reader.parse data = some (true, .object members))
    (h : ∀ p ∈ members, ∀ v ∈ p.2.asString, Plain v) : PlainTexts data := by
  intro root key v hroot hv
  cases hparse.symm.trans hroot
  change (Value.lookup members key).asString = some v at hv
  unfold Value.lookup at hv
  cases hlookup : members.lookup key with
  | none =>
    rw [hlookup] at hv
    cases hv
    decide
  | some w =>
    rw [hlookup] at hv
    obtain ⟨before, behind, rfl, -⟩ := List.lookup_eq_some_iff.1 hlookup
    exact h (key, w) (by simp) v hv

theorem plain_getTableID {suffix : Bytes} (h : Plain suffix) (tType : Bytes) :
    Plain (getTableID suffix tType) := by
  have happend : ∀ letter : Bytes, Plain letter → Plain (letter ++ suffix) := by
    intro letter hletter
    simp only [Plain, List.mem_append, not_or] at hletter h ⊢
    exact ⟨⟨hletter.1, h.1⟩, hletter.2, h.2⟩
  apply happend
  split_ifs <;> decide

theorem PlainUsers.lookup {m : UserManager} (h : PlainUsers m) (username : Bytes) :
    Plain (m.getUserInfoByUsername username {}).2.uID := by
  cases hlookup : m.getUserInfoByUsername username {} with
  | mk found u =>
    cases found with
    | true => exact h u (of_lookup hlookup).1
    | false =>
      unfold UserManager.getUserInfoByUsername at hlookup
      split at hlookup
      · cases hlookup
      · cases hlookup
        decide

/-- The users keep plain identifiers. -/
theorem PlainUsers.call (h : PlainUsers s.manager) (hplain : ∀ v ∈ w.values, Plain v) :
    PlainUsers (s.call w a).2.manager := by
  have hwrite : ∀ (t : Server) (change : UserManager → UserManager), PlainUsers t.manager →
      PlainUsers (change t.manager) → PlainUsers (t.write w a change).2.manager := by
    intro t change ht hchange
    rcases t.write_cases w a change with ⟨-, hw⟩ | ⟨db, -, hw⟩
    · rwa [hw]
    · rwa [hw]
  cases w with
  | addUser user =>
    refine hwrite ⟨s.db, { s.manager with baseUserID := s.manager.baseUserID + 1 }⟩ _ h fun u hu => ?_
    rcases List.mem_append.1 hu with hu | hu
    · exact h u hu
    · rw [List.mem_singleton.1 hu]
      exact hplain user.uID List.mem_cons_self
  | removeOneCollectInfo uID assetsTitle assetsType =>
    simp only [Server.call, Server.removeOneCollectInfo]
    split
    · exact hwrite s _ h h
    · exact h
  | _ => exact hwrite s _ h h

/-- An upload makes a call with plain values. -/
theorem plain_uploadWrite {m : UserManager} {idSuffix : Bytes} {type : AssetType}
    (hroot : ∀ key v, root.stringMember key = some v → Plain v) (hid : Plain idSuffix)
    (husers : PlainUsers m) (h : uploadWrite m idSuffix root type = some w) :
    ∀ v ∈ w.values, Plain v := by
  cases type with
  | video =>
    obtain ⟨username, hname, h⟩ := Option.bind_eq_some_iff.1 h
    obtain ⟨fileType, -, h⟩ := Option.bind_eq_some_iff.1 h
    obtain ⟨courses, hcourses, h⟩ := Option.bind_eq_some_iff.1 h
    obtain ⟨filePath, hfilePath, h⟩ := Option.bind_eq_some_iff.1 h
    obtain ⟨head, hhead, h⟩ := Option.bind_eq_some_iff.1 h
    obtain ⟨title, htitle, h⟩ := Option.bind_eq_some_iff.1 h
    obtain ⟨synopsis, hsynopsis, h⟩ := Option.bind_eq_some_iff.1 h
    cases h
    simp [Write.values, plain_getTableID hid, husers.lookup, hroot _ _ hname, hroot _ _ hcourses,
      hroot _ _ hfilePath, hroot _ _ hhead, hroot _ _ htitle, hroot _ _ hsynopsis]
  | audio =>
    obtain ⟨username, hname, h⟩ := Option.bind_eq_some_iff.1 h
    obtain ⟨fileType, -, h⟩ := Option.bind_eq_some_iff.1 h
    obtain ⟨courses, hcourses, h⟩ := Option.bind_eq_some_iff.1 h
    obtain ⟨filePath, hfilePath, h⟩ := Option.bind_eq_some_iff.1 h
    obtain ⟨head, hhead, h⟩ := Option.bind_eq_some_iff.1 h
    obtain ⟨title, htitle, h⟩ := Option.bind_eq_some_iff.1 h
    cases h
    simp [Write.values, plain_getTableID hid, husers.lookup, hroot _ _ hname, hroot _ _ hcourses,
      hroot _ _ hfilePath, hroot _ _ hhead, hroot _ _ htitle]
  | text =>
    obtain ⟨username, hname, h⟩ := Option.bind_eq_some_iff.1 h
    obtain ⟨fileType, -, h⟩ := Option.bind_eq_some_iff.1 h
    obtain ⟨fileData, hfileData, h⟩ := Option.bind_eq_some_iff.1 h
    obtain ⟨coursesStr, hcourses, h⟩ := Option.bind_eq_some_iff.1 h
    obtain ⟨title, htitle, h⟩ := Option.bind_eq_some_iff.1 h
    cases h
    simp [Write.values, plain_getTableID hid, husers.lookup, hroot _ _ hname, hroot _ _ hfileData,
      hroot _ _ hcourses, hroot _ _ htitle]

/-- What a handler does to the server: nothing, or one call with plain values. -/
def PlainCall (s s' : Server) (a : Attempt) : Prop :=
  s' = s ∨ ∃ w, (∀ v ∈ w.values, Plain v) ∧ s' = (s.call w a).2

theorem plain_onRegisterResponse (hroot : ∀ key v, root.stringMember key = some v → Plain v)
    (hid : Plain e.idSuffix) (hparse : Reader.parse data = some (true, root))
    (h : onRegisterResponse s e data = some (s', replies)) : PlainCall s s' e.attempt := by
  obtain ⟨username, hname, h⟩ := Option.bind_eq_some_iff.1 (of_withRoot_of_parse hparse h)
  obtain ⟨password, hpassword, h⟩ := Option.bind_eq_some_iff.1 h
  obtain ⟨custimface, hface, h⟩ := Option.bind_eq_some_iff.1 h
  obtain ⟨sex, -, h⟩ := Option.bind_eq_some_iff.1 h
  obtain ⟨json, -, h⟩ := Option.bind_eq_some_iff.1 h
  cases h
  refine .inr ⟨.addUser { username, password, uID := getTableID e.idSuffix (ascii "user"), custimface, sex },
    ?_, rfl⟩
  simp [Write.values, plain_getTableID hid, hroot _ _ hname, hroot _ _ hpassword, hroot _ _ hface]

theorem plain_onAddHistoryInfoResponse (hroot : ∀ key v, root.stringMember key = some v → Plain v)
    (hid : Plain e.idSuffix) (husers : PlainUsers s.manager)
    (hparse : Reader.parse data = some (true, root))
    (h : onAddHistoryInfoResponse s e data = some (s', replies)) : PlainCall s s' e.attempt := by
  obtain ⟨username, -, h⟩ := Option.bind_eq_some_iff.1 (of_withRoot_of_parse hparse h)
  dsimp only at h
  split at h
  · obtain ⟨title, htitle, h⟩ := Option.bind_eq_some_iff.1 h
    obtain ⟨fileType, htype, h⟩ := Option.bind_eq_some_iff.1 h
    obtain ⟨json, -, h⟩ := Option.bind_eq_some_iff.1 h
    cases h
    refine .inr ⟨.addBrowseInfoFromDB _ _ _ _, ?_, rfl⟩
    simp [Write.values, plain_getTableID hid, husers.lookup, hroot _ _ htitle, hroot _ _ htype]
  · obtain ⟨json, -, h⟩ := Option.bind_eq_some_iff.1 h
    cases h
    exact .inl rfl

theorem plain_onAddCollectInfoResponse (hroot : ∀ key v, root.stringMember key = some v → Plain v)
    (hid : Plain e.idSuffix) (husers : PlainUsers s.manager)
    (hparse : Reader.parse data = some (true, root))
    (h : onAddCollectInfoResponse s e data = some (s', replies)) : PlainCall s s' e.attempt := by
  obtain ⟨_, -, _, -, ⟨-, hs, -⟩ | ⟨u, title, fileType, cState, hu, htitle, htype, -, hs, -⟩⟩ :=
    of_onAddCollectInfoResponse hparse h
  · exact .inl hs
  · refine .inr ⟨_, ?_, hs⟩
    have huID : Plain u.uID := husers u (of_lookup hu).1
    unfold collectWrite
    split <;>
      simp [Write.values, plain_getTableID hid, huID, hroot _ _ htitle, hroot _ _ htype]

/-- **A message with plain texts leads to a call with plain values**, if to any. -/
theorem plainCall_of_process (hplain : PlainTexts data) (hid : Plain e.idSuffix)
    (husers : PlainUsers s.manager) (h : process s e data = some (s', replies)) :
    PlainCall s s' e.attempt := by
  rcases of_process h with ⟨rfl, -⟩ | ⟨type, htype, hhandle⟩
  · exact .inl rfl
  obtain ⟨⟨ok, root⟩, hparse, -⟩ := Option.bind_eq_some_iff.1 htype
  cases ok with
  | false =>
    by_cases hnormal : type = .loadInfoNormal
    · subst hnormal
      obtain ⟨json, -, hpair⟩ := Option.bind_eq_some_iff.1 hhandle
      cases hpair
      exact .inl rfl
    · rw [handle_of_rejected hparse hnormal] at hhandle
      cases hhandle
      exact .inl rfl
  | true =>
    have hroot : ∀ key v, root.stringMember key = some v → Plain v := fun key v => hplain root key v hparse
    have hupload : ∀ t, handle s e (uploadType t) data = some (s', replies) → PlainCall s s' e.attempt := by
      intro t h
      obtain ⟨w, -, hw, -, -, hs, -⟩ := of_upload hparse h
      exact .inr ⟨w, plain_uploadWrite hroot hid husers hw, hs⟩
    cases type with
    | uploadVideo => exact hupload .video hhandle
    | uploadAudio => exact hupload .audio hhandle
    | uploadText => exact hupload .text hhandle
    | register => exact plain_onRegisterResponse hroot hid hparse hhandle
    | addHistory => exact plain_onAddHistoryInfoResponse hroot hid husers hparse hhandle
    | addCollect => exact plain_onAddCollectInfoResponse hroot hid husers hparse hhandle
    | heartbeat =>
      cases hhandle
      exact .inl rfl
    | login => exact .inl (server_of_onLoginResponse hhandle)
    | loadInfoHistory | loadInfoDynamic | loadInfoCollect => exact .inl (server_of_listing hhandle)
    | loadInfoNormal =>
      obtain ⟨json, -, hpair⟩ := Option.bind_eq_some_iff.1 hhandle
      cases hpair
      exact .inl rfl
    | loadInfoSearch =>
      have hsearch : onGetSearchInfoResponse s data = some (s', replies) := hhandle
      obtain ⟨searchInfo, -, hpair⟩ := Option.bind_eq_some_iff.1 (of_withRoot_of_parse hparse hsearch)
      cases hpair
      exact .inl rfl

end ClientSession

/-! ## Runs -/

namespace ChatServer

open ClientSession

variable {name ipPort : Bytes} {s s' : ChatServer}

/-- A session was asked with plain texts, at a time that gives plain identifiers. -/
def PlainExchange (o : Seen) : Prop :=
  ∀ x, o.exchange = some x → Plain x.surroundings.idSuffix ∧ PlainTexts x.message

theorem catalogued_step {t : Turn} {o : Seen} (hs : Catalogued s.server ∧ PlainUsers s.server.manager)
    (hplain : PlainExchange o) (h : s.step name ipPort t = some (o, s')) :
    Catalogued s'.server ∧ PlainUsers s'.server.manager := by
  rcases step_cases h with ⟨-, -, -, hserver⟩ | ⟨_, _, x, _, -, -, -, hprocess, -, rfl⟩
  · rwa [hserver]
  · obtain ⟨hid, htexts⟩ := hplain x rfl
    rcases plainCall_of_process htexts hid hs.2 hprocess with heq | ⟨w, hvalues, heq⟩
    · rwa [heq]
    · rw [heq]
      exact ⟨hs.1.call hvalues, hs.2.call hvalues⟩

theorem catalogued_run {is : List Turn} {out : List Seen}
    (hs : Catalogued s.server ∧ PlainUsers s.server.manager) (hplain : ∀ o ∈ out, PlainExchange o)
    (h : runs (step name ipPort) s is = some (out, s')) : Catalogued s'.server := by
  induction is generalizing s out with
  | nil =>
    cases h
    exact hs.1
  | cons t is ih =>
    obtain ⟨o, u, out', hstep, hrest, rfl⟩ := runs_cons_eq_some.1 h
    obtain ⟨ho, hout⟩ := List.forall_mem_cons.1 hplain
    exact ih (catalogued_step hs ho hstep) hout hrest

/-- **What has been uploaded with success outlasts the process.** The server is started on a database and
serves any clients, with any messages of plain texts; then the process ends, and is started on the database
that it has left. The caches have the files of the first start, and those that clients have been told are
uploaded. -/
theorem published_durable {db : Database} {answers : Answers db} {m m' : UserManager}
    (hinit : init db answers = some (true, m)) (husers : PlainUsers m) {is : List Turn} {out : List Seen}
    (h : runs (step name ipPort) ⟨{}, ⟨db, m⟩⟩ is = some (out, s)) (hplain : ∀ o ∈ out, PlainExchange o)
    {answers' : Answers s.server.db} (hrestart : init s.server.db answers' = some (true, m'))
    (type : AssetType) : (m'.assets type).Perm (m.assets type ++ publishedIn type out) := by
  have hcatalogued : Catalogued s.server := catalogued_run ⟨catalogued_init hinit, husers⟩ hplain h
  have hassets : s.server.manager.assets type = m.assets type ++ publishedIn type out := assets_run h
  rw [← hassets]
  exact hcatalogued.restart hrestart type

/-- Every query succeeds, and the rows come as they are. -/
def everyRow (db : Database) : Answers db where
  user := some ⟨_, .rfl⟩
  videoData := some ⟨_, .rfl⟩
  audioData := some ⟨_, .rfl⟩
  textData := some ⟨_, .rfl⟩
  browseRecords := some ⟨_, .rfl⟩
  assetsCollect := some ⟨_, .rfl⟩

/-- The text of `ann` is there after a restart. -/
theorem published_durable_publishing : ∃ out s m',
    runs (step [] []) ⟨{}, ⟨smallDatabase, smallManager⟩⟩ publishing = some (out, s) ∧
      (publishedIn .text out).length = 1 ∧ init s.server.db (everyRow s.server.db) = some (true, m') ∧
      ∀ type, (m'.assets type).Perm (smallManager.assets type ++ publishedIn type out) := by
  have hcheck : (runs (step [] []) ⟨{}, ⟨smallDatabase, smallManager⟩⟩ publishing).any fun p =>
      (publishedIn .text p.1).length = 1 &&
        ((init p.2.server.db (everyRow p.2.server.db)).any fun r => r.1) &&
        p.1.all fun o => o.exchange.all fun x => Plain x.surroundings.idSuffix &&
          decide (x.message ∈ [annText.data, listingRequest.text]) := by
    decide +kernel
  obtain ⟨⟨out, s⟩, hrun, hcheck⟩ := (Option.any_eq_true _ _).1 hcheck
  simp only [Bool.and_eq_true, decide_eq_true_eq] at hcheck
  obtain ⟨⟨hlength, hloaded⟩, hasked⟩ := hcheck
  obtain ⟨⟨ok, m'⟩, hrestart, hok⟩ := (Option.any_eq_true _ _).1 hloaded
  obtain rfl : ok = true := hok
  have husers : PlainUsers smallManager := by
    have hids : ∀ uID ∈ smallManager.cachedUsers.map User.uID, Plain uID := by
      decide +kernel
    exact fun u hu => hids u.uID (List.mem_map_of_mem hu)
  have hplain : ∀ o ∈ out, PlainExchange o := by
    intro o ho x hx
    have hx := (Option.all_eq_true _ _).1 (List.all_eq_true.1 hasked o ho) x hx
    simp only [Bool.and_eq_true, decide_eq_true_eq, List.mem_cons, List.not_mem_nil,
      or_false] at hx
    refine ⟨hx.1, ?_⟩
    rcases hx.2 with h | h
    · rw [h]
      exact plainTexts_of_members annText.parsed (by decide)
    · rw [h]
      exact plainTexts_of_members (listingRequest.accepted []) (by decide)
  exact ⟨out, s, m', hrun, hlength, hrestart,
    published_durable init_smallDatabase husers hrun hplain hrestart⟩

end ChatServer

end GraduationServer
