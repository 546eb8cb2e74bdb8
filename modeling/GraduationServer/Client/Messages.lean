import GraduationServer.Client.Login
import GraduationServer.Client.Safety
import GraduationServer.Json.Members
import GraduationServer.Users.Assets

/-!
# What a message does

What each handler has done when it has returned: a handler changes the server by one call at most
(`server_of_handle`), and the reply of a registration or of an upload tells whether that call has
succeeded (`of_onRegisterResponse`, `of_upload`). `serve` handles the messages of any clients in the
order in which they arrive.
-/

namespace GraduationServer

open Json

namespace ClientSession

variable {s s' : Server} {e : Surroundings} {data : Bytes} {root : Value} {replies : List Reply}

/-! ## Replies -/

/-- The state in a reply, whatever is set behind it. -/
theorem state_stateReply {type : MsgType} {state : ℤ} {members : List (Bytes × Bytes)} {json : Value}
    (h : stateReply type state members = some json)
    (hmembers : ascii "responsesState" ∉ members.map Prod.fst)
    (hstate : Value.asInt (.int state) = some state) : ({ json } : Reply).state = some state := by
  obtain ⟨values, hvalues, h⟩ := Option.bind_eq_some_iff.1 h
  cases h
  have hkeys : values.map Prod.fst = members.map Prod.fst := by
    refine map_eq_of_mapM (fun m p hp => ?_) hvalues
    obtain ⟨v, -, rfl⟩ := Option.map_eq_some_iff.1 hp
    rfl
  rw [Reply.state, Value.intMember, Value.ofMembers, Value.member, List.foldl_append,
    Value.lookup_foldl_of_notMem (by rwa [hkeys]), Option.bind_some]
  exact hstate

/-- A handler that has returned has seen a message that the parser rejects, or its root. -/
theorem of_withRoot {handle : Value → Handled} {r : Server × List Reply}
    (h : withRoot s data handle = some r) :
    r = (s, []) ∨ ∃ root, Reader.parse data = some (true, root) ∧ handle root = some r := by
  obtain ⟨⟨ok, root⟩, hparse, h⟩ := Option.bind_eq_some_iff.1 h
  cases ok with
  | false =>
    cases h
    exact Or.inl rfl
  | true => exact Or.inr ⟨root, hparse, h⟩

/-- The root of a message that the parser accepts. -/
theorem of_withRoot_of_parse {handle : Value → Handled} {r : Server × List Reply}
    (hparse : Reader.parse data = some (true, root)) (h : withRoot s data handle = some r) :
    handle root = some r := by
  rwa [withRoot, hparse] at h

/-! ## Registrations -/

/-- A registration adds a user with the name and the password of the message, and says whether that
has succeeded. -/
theorem of_onRegisterResponse (hparse : Reader.parse data = some (true, root))
    (h : onRegisterResponse s e data = some (s', replies)) :
    ∃ user : User, root.stringMember (ascii "username") = some user.username ∧
      root.stringMember (ascii "password") = some user.password ∧
      s' = (s.addUser user e.attempt).2 ∧
      ∃ reply, replies = [reply] ∧
        reply.state = some (if (s.addUser user e.attempt).1 then 1 else 0) := by
  have h := of_withRoot_of_parse hparse h
  obtain ⟨username, hname, h⟩ := Option.bind_eq_some_iff.1 h
  obtain ⟨password, hpassword, h⟩ := Option.bind_eq_some_iff.1 h
  obtain ⟨custimface, -, h⟩ := Option.bind_eq_some_iff.1 h
  obtain ⟨sex, -, h⟩ := Option.bind_eq_some_iff.1 h
  obtain ⟨json, hjson, h⟩ := Option.bind_eq_some_iff.1 h
  cases h
  refine ⟨_, hname, hpassword, rfl, _, rfl, state_stateReply hjson (by simp) ?_⟩
  split <;> decide

/-! ## Uploads -/

/-- The message type of an upload. -/
def uploadType : AssetType → MsgType
  | .video => .uploadVideo
  | .audio => .uploadAudio
  | .text => .uploadText

/-- The names of the texts of an asset, and the members of the request they come from. -/
def assetKeys : AssetType → List (Bytes × Bytes)
  | .video => [(ascii "fileData", ascii "fileData"), (ascii "courses", ascii "courses"),
      (ascii "title", ascii "title"), (ascii "synopsis", ascii "synopsis"),
      (ascii "upName", ascii "username"), (ascii "headImgPath", ascii "headImgPath")]
  | .audio => [(ascii "fileData", ascii "fileData"), (ascii "courses", ascii "courses"),
      (ascii "title", ascii "title"), (ascii "upName", ascii "username"),
      (ascii "headImgPath", ascii "headImgPath")]
  | .text => [(ascii "fileData", ascii "fileData"), (ascii "courses", ascii "courses"),
      (ascii "title", ascii "title"), (ascii "upName", ascii "username")]

/-- The asset that a request wants to be listed. -/
def requested (root : Value) (type : AssetType) : Option Asset :=
  (assetKeys type).mapM fun key => (root.stringMember key.2).map (key.1, ·)

/-- The call for an upload: the record is made of the texts of the request, an identifier, and the
identifier of the user if there is one. -/
def uploadWrite (m : UserManager) (idSuffix : Bytes) (root : Value) : AssetType → Option Write
  | .video => do
    let username ← root.stringMember (ascii "username")
    let type ← root.stringMember (ascii "fileType")
    let courses ← root.stringMember (ascii "courses")
    let filePath ← root.stringMember (ascii "fileData")
    let headImgPath ← root.stringMember (ascii "headImgPath")
    let title ← root.stringMember (ascii "title")
    let synopsis ← root.stringMember (ascii "synopsis")
    return .addVideoInfoFromDB {
      vId := getTableID idSuffix type, vCourses := courses, vFilePath := filePath,
      vHeadImgPath := headImgPath, vTitle := title,
      vUID := (m.getUserInfoByUsername username {}).2.uID, vUpName := username,
      vSynopsis := synopsis }
  | .audio => do
    let username ← root.stringMember (ascii "username")
    let type ← root.stringMember (ascii "fileType")
    let courses ← root.stringMember (ascii "courses")
    let filePath ← root.stringMember (ascii "fileData")
    let headImgPath ← root.stringMember (ascii "headImgPath")
    let title ← root.stringMember (ascii "title")
    return .addAudioInfoFromDB {
      aId := getTableID idSuffix type, aCourses := courses, aFilePath := filePath,
      aHeadImgPath := headImgPath, aTitle := title,
      aUID := (m.getUserInfoByUsername username {}).2.uID, aUpName := username }
  | .text => do
    let username ← root.stringMember (ascii "username")
    let type ← root.stringMember (ascii "fileType")
    let fileData ← root.stringMember (ascii "fileData")
    let coursesStr ← root.stringMember (ascii "courses")
    let title ← root.stringMember (ascii "title")
    return .addWordInfoFromDB {
      uID := (m.getUserInfoByUsername username {}).2.uID, fileData, coursesStr, title,
      tId := getTableID idSuffix type, upName := username }

/-- What a reply repeats of the record of an upload. -/
def uploadMembers : Write → List (Bytes × Bytes)
  | .addVideoInfoFromDB info => [(ascii "title", info.vTitle), (ascii "courses", info.vCourses),
      (ascii "fileData", info.vFilePath), (ascii "headImgPath", info.vHeadImgPath),
      (ascii "username", info.vUpName), (ascii "synopsis", info.vSynopsis)]
  | .addAudioInfoFromDB info => [(ascii "title", info.aTitle), (ascii "courses", info.aCourses),
      (ascii "fileData", info.aFilePath), (ascii "headImgPath", info.aHeadImgPath),
      (ascii "username", info.aUpName)]
  | .addWordInfoFromDB info => [(ascii "title", info.title), (ascii "courses", info.coursesStr),
      (ascii "fileData", info.fileData), (ascii "username", info.upName)]
  | _ => []

/-- The three handlers of uploads do the same. -/
theorem handle_upload (s : Server) (e : Surroundings) (type : AssetType) (data : Bytes) :
    handle s e (uploadType type) data = withRoot s data fun root =>
      (uploadWrite s.manager e.idSuffix root type).bind fun w =>
        (stateReply (uploadType type) (if (s.call w e.attempt).1 then 1 else 0)
          (if (s.call w e.attempt).1 then uploadMembers w else [])).bind fun json =>
            some ((s.call w e.attempt).2, [{ json }]) := by
  cases type with
  | video =>
    rw [uploadType, handle, onUploadVideoResponse]
    refine congrArg (withRoot s data) (funext fun root => ?_)
    simp only [uploadWrite, Option.bind_eq_bind, Option.bind_assoc, Option.pure_def,
      Option.bind_some]
    rfl
  | audio =>
    rw [uploadType, handle, onUploadAudioResponse]
    refine congrArg (withRoot s data) (funext fun root => ?_)
    simp only [uploadWrite, Option.bind_eq_bind, Option.bind_assoc, Option.pure_def,
      Option.bind_some]
    rfl
  | text =>
    rw [uploadType, handle, onUploadTextResponse]
    refine congrArg (withRoot s data) (funext fun root => ?_)
    simp only [uploadWrite, Option.bind_eq_bind, Option.bind_assoc, Option.pure_def,
      Option.bind_some]
    rfl

/-- The call for an upload adds the asset that the request wants to be listed. -/
theorem assets_of_uploadWrite {m : UserManager} {idSuffix : Bytes} {type : AssetType} {w : Write}
    (h : uploadWrite m idSuffix root type = some w) :
    ∃ asset, requested root type = some asset ∧
      ∀ type', w.assets type' = if type' = type then [asset] else [] := by
  cases type with
  | video =>
    obtain ⟨username, hname, h⟩ := Option.bind_eq_some_iff.1 h
    obtain ⟨fileType, -, h⟩ := Option.bind_eq_some_iff.1 h
    obtain ⟨courses, hcourses, h⟩ := Option.bind_eq_some_iff.1 h
    obtain ⟨filePath, hfilePath, h⟩ := Option.bind_eq_some_iff.1 h
    obtain ⟨head, hhead, h⟩ := Option.bind_eq_some_iff.1 h
    obtain ⟨title, htitle, h⟩ := Option.bind_eq_some_iff.1 h
    obtain ⟨synopsis, hsynopsis, h⟩ := Option.bind_eq_some_iff.1 h
    cases h
    refine ⟨_, ?_, fun type' => by cases type' <;> rfl⟩
    simp only [requested, assetKeys, List.mapM_cons, List.mapM_nil, hname, hcourses, hfilePath,
      hhead, htitle, hsynopsis]
    rfl
  | audio =>
    obtain ⟨username, hname, h⟩ := Option.bind_eq_some_iff.1 h
    obtain ⟨fileType, -, h⟩ := Option.bind_eq_some_iff.1 h
    obtain ⟨courses, hcourses, h⟩ := Option.bind_eq_some_iff.1 h
    obtain ⟨filePath, hfilePath, h⟩ := Option.bind_eq_some_iff.1 h
    obtain ⟨head, hhead, h⟩ := Option.bind_eq_some_iff.1 h
    obtain ⟨title, htitle, h⟩ := Option.bind_eq_some_iff.1 h
    cases h
    refine ⟨_, ?_, fun type' => by cases type' <;> rfl⟩
    simp only [requested, assetKeys, List.mapM_cons, List.mapM_nil, hname, hcourses, hfilePath,
      hhead, htitle]
    rfl
  | text =>
    obtain ⟨username, hname, h⟩ := Option.bind_eq_some_iff.1 h
    obtain ⟨fileType, -, h⟩ := Option.bind_eq_some_iff.1 h
    obtain ⟨fileData, hfileData, h⟩ := Option.bind_eq_some_iff.1 h
    obtain ⟨courses, hcourses, h⟩ := Option.bind_eq_some_iff.1 h
    obtain ⟨title, htitle, h⟩ := Option.bind_eq_some_iff.1 h
    cases h
    refine ⟨_, ?_, fun type' => by cases type' <;> rfl⟩
    simp only [requested, assetKeys, List.mapM_cons, List.mapM_nil, hname, hcourses, hfileData,
      htitle]
    rfl

theorem notMem_uploadMembers (w : Write) :
    ascii "responsesState" ∉ (uploadMembers w).map Prod.fst := by
  cases w <;> simp only [uploadMembers, List.map_cons, List.map_nil] <;> decide

/-- **An upload makes one call**, which adds the asset of the request if it succeeds, and its reply
says whether it has. -/
theorem of_upload {type : AssetType} (hparse : Reader.parse data = some (true, root))
    (h : handle s e (uploadType type) data = some (s', replies)) :
    ∃ w asset, uploadWrite s.manager e.idSuffix root type = some w ∧
      requested root type = some asset ∧
      (∀ type', w.assets type' = if type' = type then [asset] else []) ∧
      s' = (s.call w e.attempt).2 ∧
      ∃ reply, replies = [reply] ∧ reply.state = some (if (s.call w e.attempt).1 then 1 else 0) := by
  rw [handle_upload] at h
  obtain ⟨w, hw, h⟩ := Option.bind_eq_some_iff.1 (of_withRoot_of_parse hparse h)
  obtain ⟨json, hjson, h⟩ := Option.bind_eq_some_iff.1 h
  cases h
  obtain ⟨asset, hasset, hassets⟩ := assets_of_uploadWrite hw
  refine ⟨w, asset, hw, hasset, hassets, rfl, _, rfl, state_stateReply hjson ?_ ?_⟩
  · split
    · exact notMem_uploadMembers w
    · exact List.not_mem_nil
  · split <;> decide

/-! ## Favourites and history -/

/-- The call for a change of the favourites: a positive state adds one. -/
def collectWrite (u : User) (idSuffix title fileType : Bytes) (cState : ℤ) : Write :=
  if 0 < cState then
    .addCollectInfoFromDB (getTableID idSuffix (ascii "collect")) u.uID fileType title
  else .removeOneCollectInfo u.uID title fileType

theorem call_collectWrite (s : Server) (u : User) (idSuffix title fileType : Bytes) (cState : ℤ)
    (a : Attempt) :
    s.call (collectWrite u idSuffix title fileType cState) a =
      if 0 < cState then
        s.addCollectInfoFromDB (getTableID idSuffix (ascii "collect")) u.uID fileType title a
      else s.removeOneCollectInfo u.uID title fileType a := by
  unfold collectWrite
  split <;> rfl

/-- The state in a reply to a change that has succeeded. -/
theorem state_collectReply (title fileType username : Value) (type cState : ℤ) :
    ({ json := .ofMembers [(ascii "msgType", .int type), (ascii "title", title),
      (ascii "fileType", fileType), (ascii "username", username), (ascii "collectState", .int cState),
      (ascii "responsesState", .int 1)] } : Reply).state = some 1 := by
  have hkeys : [ascii "msgType", ascii "title", ascii "fileType", ascii "username",
      ascii "collectState", ascii "responsesState"].Nodup := by
    decide
  rw [Reply.state, Value.intMember, Value.member_ofMembers (v := .int 1)]
  · rfl
  · exact hkeys
  · simp

/-- A change of the favourites makes one call for a known user, and its reply says whether that has
succeeded; nothing is done for an unknown one. -/
theorem of_onAddCollectInfoResponse (hparse : Reader.parse data = some (true, root))
    (h : onAddCollectInfoResponse s e data = some (s', replies)) :
    ∃ username, root.stringMember (ascii "username") = some username ∧ ∃ reply, replies = [reply] ∧
      ((Unknown s.manager username ∧ s' = s ∧ reply.state = some (-1)) ∨
        ∃ u title fileType cState, s.manager.getUserInfoByUsername username {} = (true, u) ∧
          root.stringMember (ascii "title") = some title ∧
          root.stringMember (ascii "fileType") = some fileType ∧
          root.intMember (ascii "collectState") = some cState ∧
          s' = (s.call (collectWrite u e.idSuffix title fileType cState) e.attempt).2 ∧
          reply.state =
            some (if (s.call (collectWrite u e.idSuffix title fileType cState) e.attempt).1 then 1
              else -1)) := by
  obtain ⟨username, hname, h⟩ := Option.bind_eq_some_iff.1 (of_withRoot_of_parse hparse h)
  refine ⟨username, hname, ?_⟩
  cases hlookup : s.manager.getUserInfoByUsername username {} with
  | mk found u =>
    rw [hlookup] at h
    dsimp only at h
    cases found with
    | false =>
      rw [if_neg Bool.false_ne_true] at h
      obtain ⟨json, hjson, h⟩ := Option.bind_eq_some_iff.1 h
      cases h
      refine ⟨_, rfl, Or.inl ⟨by rw [unknown_iff, hlookup], rfl, ?_⟩⟩
      exact state_stateReply hjson (by simp) (by decide)
    | true =>
      obtain ⟨title, htitle, h⟩ := Option.bind_eq_some_iff.1 h
      obtain ⟨fileType, htype, h⟩ := Option.bind_eq_some_iff.1 h
      obtain ⟨cState, hstate, h⟩ := Option.bind_eq_some_iff.1 h
      rw [← call_collectWrite] at h
      generalize hdone : s.call (collectWrite u e.idSuffix title fileType cState) e.attempt = r at h
      obtain ⟨ok, after⟩ := r
      dsimp only at h
      cases ok with
      | false =>
        rw [if_neg Bool.false_ne_true] at h
        obtain ⟨json, hjson, h⟩ := Option.bind_eq_some_iff.1 h
        cases h
        refine ⟨_, rfl, Or.inr ⟨u, title, fileType, cState, rfl, htitle, htype, hstate, ?_⟩⟩
        rw [hdone]
        exact ⟨rfl, state_stateReply hjson (by simp) rfl⟩
      | true =>
        obtain ⟨v, -, h⟩ := Option.bind_eq_some_iff.1 h
        obtain ⟨v', -, h⟩ := Option.bind_eq_some_iff.1 h
        obtain ⟨v'', -, h⟩ := Option.bind_eq_some_iff.1 h
        cases h
        refine ⟨_, rfl, Or.inr ⟨u, title, fileType, cState, rfl, htitle, htype, hstate, ?_⟩⟩
        rw [hdone]
        exact ⟨rfl, state_collectReply _ _ _ _ _⟩

/-- An entry in the history is one call at most. -/
theorem server_of_onAddHistoryInfoResponse
    (h : onAddHistoryInfoResponse s e data = some (s', replies)) :
    s' = s ∨ ∃ w, s' = (s.call w e.attempt).2 := by
  rcases of_withRoot h with heq | ⟨root, -, h⟩
  · cases heq
    exact Or.inl rfl
  obtain ⟨username, -, h⟩ := Option.bind_eq_some_iff.1 h
  dsimp only at h
  split at h
  · obtain ⟨title, -, h⟩ := Option.bind_eq_some_iff.1 h
    obtain ⟨fileType, -, h⟩ := Option.bind_eq_some_iff.1 h
    obtain ⟨json, -, h⟩ := Option.bind_eq_some_iff.1 h
    cases h
    exact Or.inr ⟨.addBrowseInfoFromDB _ _ _ _, rfl⟩
  · obtain ⟨json, -, h⟩ := Option.bind_eq_some_iff.1 h
    cases h
    exact Or.inl rfl

/-! ## All messages -/

/-- The three listings after a login leave the server alone. -/
theorem server_of_listings {s₁ s₂ s₃ : Server} {dynamic history collect : List Reply}
    (hdynamic : onGetDynamicInfoResponse s data = some (s₁, dynamic))
    (hhistory : onGetHistoryInfoResponse s₁ e data = some (s₂, history))
    (hcollect : onGetCollectInfoResponse s₂ e data = some (s₃, collect)) :
    s₁ = s ∧ s₂ = s ∧ s₃ = s := by
  have h₁ : s₁ = s := server_of_listing hdynamic
  have h₂ : s₂ = s₁ := server_of_listing hhistory
  have h₃ : s₃ = s₂ := server_of_listing hcollect
  exact ⟨h₁, h₂.trans h₁, h₃.trans (h₂.trans h₁)⟩

/-- A login leaves the server alone. -/
theorem server_of_onLoginResponse (h : onLoginResponse s e data = some (s', replies)) : s' = s := by
  rcases of_withRoot h with heq | ⟨root, -, h⟩
  · cases heq
    rfl
  obtain ⟨userName, -, h⟩ := Option.bind_eq_some_iff.1 h
  obtain ⟨password, -, h⟩ := Option.bind_eq_some_iff.1 h
  obtain ⟨json, -, h⟩ := Option.bind_eq_some_iff.1 h
  obtain ⟨uName, -, h⟩ := Option.bind_eq_some_iff.1 h
  obtain ⟨⟨s₁, dynamic⟩, hdynamic, h⟩ := Option.bind_eq_some_iff.1 h
  obtain ⟨⟨s₂, history⟩, hhistory, h⟩ := Option.bind_eq_some_iff.1 h
  obtain ⟨⟨s₃, collect⟩, hcollect, h⟩ := Option.bind_eq_some_iff.1 h
  cases h
  exact (server_of_listings hdynamic hhistory hcollect).2.2

/-- **A handler changes the server by one call at most.** -/
theorem server_of_handle {type : MsgType} (h : handle s e type data = some (s', replies)) :
    s' = s ∨ ∃ w, s' = (s.call w e.attempt).2 := by
  have hupload : ∀ t, handle s e (uploadType t) data = some (s', replies) →
      s' = s ∨ ∃ w, s' = (s.call w e.attempt).2 := by
    intro t h
    rw [handle_upload] at h
    rcases of_withRoot h with heq | ⟨root, hparse, -⟩
    · cases heq
      exact Or.inl rfl
    · rw [← handle_upload] at h
      obtain ⟨w, -, -, -, -, hs, -⟩ := of_upload hparse h
      exact Or.inr ⟨w, hs⟩
  cases type with
  | heartbeat =>
    cases h
    exact Or.inl rfl
  | login => exact Or.inl (server_of_onLoginResponse h)
  | register =>
    rcases of_withRoot (show onRegisterResponse s e data = _ from h) with heq | ⟨root, hparse, -⟩
    · cases heq
      exact Or.inl rfl
    · obtain ⟨user, -, -, hs, -⟩ := of_onRegisterResponse hparse h
      exact Or.inr ⟨.addUser user, hs⟩
  | uploadVideo => exact hupload .video h
  | uploadAudio => exact hupload .audio h
  | uploadText => exact hupload .text h
  | loadInfoHistory => exact Or.inl (server_of_listing h)
  | loadInfoDynamic => exact Or.inl (server_of_listing h)
  | loadInfoCollect => exact Or.inl (server_of_listing h)
  | loadInfoNormal =>
    obtain ⟨json, -, h⟩ := Option.bind_eq_some_iff.1 h
    cases h
    exact Or.inl rfl
  | loadInfoSearch =>
    rcases of_withRoot (show onGetSearchInfoResponse s data = _ from h) with heq | ⟨root, -, h⟩
    · cases heq
      exact Or.inl rfl
    · obtain ⟨searchInfo, -, h⟩ := Option.bind_eq_some_iff.1 h
      cases h
      exact Or.inl rfl
  | addCollect =>
    rcases of_withRoot (show onAddCollectInfoResponse s e data = _ from h) with
      heq | ⟨root, hparse, -⟩
    · cases heq
      exact Or.inl rfl
    · obtain ⟨_, -, _, -, ⟨-, hs, -⟩ | ⟨_, _, _, _, -, -, -, -, hs, -⟩⟩ :=
        of_onAddCollectInfoResponse hparse h
      · exact Or.inl hs
      · exact Or.inr ⟨_, hs⟩
  | addHistory => exact server_of_onAddHistoryInfoResponse h

/-- `Process` calls the handler of the message type, or does nothing. -/
theorem of_process (h : process s e data = some (s', replies)) :
    (s' = s ∧ replies = []) ∨
      ∃ type, messageType data = some (some type) ∧ handle s e type data = some (s', replies) := by
  obtain ⟨type, htype, h⟩ := Option.bind_eq_some_iff.1 h
  cases type with
  | none =>
    cases h
    exact Or.inl ⟨rfl, rfl⟩
  | some type => exact Or.inr ⟨type, htype, h⟩

/-- `Process` of a message with a handler. -/
theorem process_of_messageType {type : MsgType} (htype : messageType data = some (some type))
    (s : Server) (e : Surroundings) : process s e data = handle s e type data := by
  rw [process, htype]
  rfl

/-- The messages of any clients, each with what its handler takes from outside: the server after them
and the replies to each. -/
def serve : Server → List (Surroundings × Bytes) → Option (Server × List (List Reply))
  | s, [] => some (s, [])
  | s, (e, data) :: messages => do
    let (s, replies) ← process s e data
    let (s, later) ← serve s messages
    return (s, replies :: later)

/-- What every message keeps is kept by a run. -/
theorem serve_keeps {P : Server → Prop} {messages : List (Surroundings × Bytes)}
    (hstep : ∀ m ∈ messages, ∀ s s' replies, P s → process s m.1 m.2 = some (s', replies) → P s')
    {answers : List (List Reply)} (hs : P s) (h : serve s messages = some (s', answers)) : P s' := by
  induction messages generalizing s answers with
  | nil =>
    cases h
    exact hs
  | cons m messages ih =>
    obtain ⟨⟨s₁, replies⟩, hm, h⟩ := Option.bind_eq_some_iff.1 h
    obtain ⟨⟨s₂, later⟩, hlater, h⟩ := Option.bind_eq_some_iff.1 h
    cases h
    obtain ⟨hfirst, hrest⟩ := List.forall_mem_cons.1 hstep
    exact ih hrest (hfirst s s₁ replies hs hm) hlater

end ClientSession

end GraduationServer
