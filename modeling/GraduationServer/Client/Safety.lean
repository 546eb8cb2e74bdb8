import GraduationServer.Client.Session
import GraduationServer.Json.Storable

/-!
# When the client session throws

The reader throws on deep nesting, `asString`, `asInt` and `asBool` throw on values they do not
convert, `operator[]` throws on a value without members, and a string must not be too long to be
stored. `Safe` says for each handler what it needs of the data in its message and of the records it
lists, and `process` returns exactly when the parser does, the type can be read and the handler that
is called is safe (`isSome_process_iff`).
-/

namespace GraduationServer

open Json

/-- All strings of a listing that a reply shows can be stored. -/
structure Listing.Storable (l : Listing) : Prop where
  videos : ∀ v ∈ l.videos, ∀ s ∈ [v.vFilePath, v.vCourses, v.vTitle, v.vSynopsis, v.vUpName,
    v.vHeadImgPath], Json.Storable s
  audios : ∀ a ∈ l.audios, ∀ s ∈ [a.aFilePath, a.aCourses, a.aTitle, a.aUpName, a.aHeadImgPath],
    Json.Storable s
  words : ∀ t ∈ l.words, ∀ s ∈ [t.fileData, t.coursesStr, t.title, t.upName], Json.Storable s

namespace ClientSession

/-! ## Conditions -/

/-- What a string is cut to when it is stored. -/
def stored (s : Bytes) : Bytes := s.take (s.length % 2 ^ 32)

/-- The listings of a login, for the name that its own message carries. -/
def LoginListable (m : UserManager) (e : Surroundings) (user : User) : Prop :=
  Storable user.username ∧ Storable user.custimface ∧
    ∀ name, Reader.decodeString (Writer.escape (stored user.username)) = some name →
      Storable name ∧ (m.getDynamicInfoFromDB (stored name)).Storable ∧
        (m.getRowsInfoFromDB e.historyRows (stored name)).2.Storable ∧
        (m.getRowsInfoFromDB e.collectRows (stored name)).2.Storable

/-- The user whose name is the member `username` exists. -/
def KnownUser (m : UserManager) (root : Value) : Prop :=
  ∃ user ∈ m.cachedUsers, root.stringMember (ascii "username") = some user.username

/-- What a handler needs of the root of its message: the accessors convert the members it reads, and
the strings of the records it lists can be stored. -/
def Needs (m : UserManager) (e : Surroundings) (root : Value) : MsgType → Prop
  | .heartbeat | .loadInfoNormal => True
  | .login => (∀ key ∈ [ascii "username", ascii "password"], root.TextAt key) ∧
      ∀ name, root.stringMember (ascii "username") = some name →
        LoginListable m e (m.getUserInfoByUsername name {}).2
  | .register => (∀ key ∈ [ascii "username", ascii "password", ascii "filePath"], root.TextAt key) ∧
      root.BoolAt (ascii "user_sex")
  | .uploadVideo => ∀ key ∈ [ascii "username", ascii "fileType", ascii "courses",
      ascii "fileData", ascii "headImgPath", ascii "title", ascii "synopsis"], root.TextAt key
  | .uploadAudio => ∀ key ∈ [ascii "username", ascii "fileType", ascii "courses",
      ascii "fileData", ascii "headImgPath", ascii "title"], root.TextAt key
  | .uploadText => ∀ key ∈ [ascii "username", ascii "fileType", ascii "fileData",
      ascii "courses", ascii "title"], root.TextAt key
  | .loadInfoHistory => root.TextAt (ascii "username") ∧
      ∀ name, root.stringMember (ascii "username") = some name →
        (m.getRowsInfoFromDB e.historyRows name).2.Storable
  | .loadInfoDynamic => root.TextAt (ascii "username") ∧
      ∀ name, root.stringMember (ascii "username") = some name →
        (m.getDynamicInfoFromDB name).Storable
  | .loadInfoCollect => root.TextAt (ascii "username") ∧
      ∀ name, root.stringMember (ascii "username") = some name →
        (m.getRowsInfoFromDB e.collectRows name).2.Storable
  | .loadInfoSearch => root.TextAt (ascii "searchInfo")
  | .addHistory => root.TextAt (ascii "username") ∧ (KnownUser m root →
      ∀ key ∈ [ascii "title", ascii "fileType"], root.TextAt key)
  | .addCollect => root.TextAt (ascii "username") ∧ (KnownUser m root →
      (∀ key ∈ [ascii "title", ascii "fileType"], root.TextAt key) ∧
        root.IntAt (ascii "collectState"))

/-! ## Replies -/

/-- An object of strings can be built from strings that can be stored. -/
theorem isSome_stateReply {type : MsgType} {state : ℤ} {members : List (Bytes × Bytes)} :
    (stateReply type state members).isSome ↔ ∀ m ∈ members, Storable m.2 := by
  have hmembers := isSome_mapM (l := members)
    (f := fun m => (Value.ofString m.2).map fun v => (m.1, v))
  simp only [Option.isSome_map, Value.isSome_ofString] at hmembers
  rw [← hmembers, stateReply, Option.bind_eq_bind]
  exact isSome_bind_of_forall fun _ _ => rfl

section Entries

/-- A chain of strings that are stored one after the other. -/
theorem isSome_ofString_bind {α : Type} {s : Bytes} {f : Value → Option α} {P : Prop}
    (h : ∀ v, (f v).isSome ↔ P) : ((Value.ofString s).bind f).isSome ↔ Storable s ∧ P :=
  (isSome_bind_iff fun v _ => h v).trans (and_congr_left' Value.isSome_ofString)

theorem isSome_videoEntry {v : VideoInfo} : (videoEntry v).isSome ↔
    ∀ s ∈ [v.vFilePath, v.vCourses, v.vTitle, v.vSynopsis, v.vUpName, v.vHeadImgPath],
      Storable s := by
  simp only [List.forall_mem_cons]
  exact isSome_ofString_bind fun _ => isSome_ofString_bind fun _ => isSome_ofString_bind fun _ =>
    isSome_ofString_bind fun _ => isSome_ofString_bind fun _ => isSome_ofString_bind fun _ => by simp

theorem isSome_audioEntry {a : AudioInfo} : (audioEntry a).isSome ↔
    ∀ s ∈ [a.aFilePath, a.aCourses, a.aTitle, a.aUpName, a.aHeadImgPath], Storable s := by
  simp only [List.forall_mem_cons]
  exact isSome_ofString_bind fun _ => isSome_ofString_bind fun _ => isSome_ofString_bind fun _ =>
    isSome_ofString_bind fun _ => isSome_ofString_bind fun _ => by simp

theorem isSome_wordEntry {t : WordInfo} : (wordEntry t).isSome ↔
    ∀ s ∈ [t.fileData, t.coursesStr, t.title, t.upName], Storable s := by
  simp only [List.forall_mem_cons]
  exact isSome_ofString_bind fun _ => isSome_ofString_bind fun _ => isSome_ofString_bind fun _ =>
    isSome_ofString_bind fun _ => by simp

end Entries

/-- A listing is sent when its strings can be stored. -/
theorem isSome_listingReply {type : MsgType} {l : Listing} :
    (listingReply type l).isSome ↔ l.Storable := by
  have hreply : (listingReply type l).isSome ↔ (l.videos.mapM videoEntry).isSome ∧
      (l.audios.mapM audioEntry).isSome ∧ (l.words.mapM wordEntry).isSome ∧ True :=
    isSome_bind_iff fun _ _ => isSome_bind_iff fun _ _ => isSome_bind_iff fun _ _ => by simp
  rw [hreply]
  simp only [isSome_mapM, isSome_videoEntry, isSome_audioEntry, isSome_wordEntry, and_true]
  exact ⟨fun h => ⟨h.1, h.2.1, h.2.2⟩, fun h => ⟨h.videos, h.audios, h.words⟩⟩

/-! ## Handlers -/

section Handlers

variable {s : Server} {e : Surroundings} {data : Bytes} {ok : Bool} {root : Value}

/-- A handler that parses its message does what it does with the root if that is accepted. -/
theorem isSome_withRoot (h : Reader.parse data = some (ok, root)) (handle : Value → Handled) :
    (withRoot s data handle).isSome ↔ (ok = true → (handle root).isSome) := by
  simp only [withRoot, h, Option.bind_eq_bind, Option.bind_some]
  cases ok <;> simp

/-- A member is read as a string, and what follows has a result under a condition. -/
theorem isSome_text {α : Type} {key : Bytes} {f : Bytes → Option α} {P : Prop}
    (h : ∀ t, root.stringMember key = some t → ((f t).isSome ↔ P)) :
    ((root.stringMember key).bind f).isSome ↔ root.TextAt key ∧ P :=
  (isSome_bind_iff h).trans (and_congr_left' Value.isSome_stringMember)

/-- A reply made of what the message says. -/
theorem isSome_stateReply_bind {type : MsgType} {state : ℤ} {members : List (Bytes × Bytes)}
    {f : Value → Handled} (hmembers : ∀ m ∈ members, Storable m.2) (hf : ∀ v, (f v).isSome) :
    ((stateReply type state members).bind f).isSome :=
  (isSome_bind_of_forall fun v _ => hf v).2 (isSome_stateReply.2 hmembers)

theorem isSome_listingReply_bind {type : MsgType} {l : Listing} {f : Value → Handled}
    (hf : ∀ v, (f v).isSome) : ((listingReply type l).bind f).isSome ↔ l.Storable :=
  (isSome_bind_of_forall fun v _ => hf v).trans isSome_listingReply

/-- No key is left to be read. -/
theorem no_key (P : Bytes → Prop) : ∀ key ∈ ([] : List Bytes), P key := by simp

theorem isSome_onRegisterResponse (h : Reader.parse data = some (ok, root)) :
    (onRegisterResponse s e data).isSome ↔ (ok = true → Needs s.manager e root .register) := by
  rw [onRegisterResponse, isSome_withRoot h]
  refine imp_congr_right fun _ => ?_
  simp only [Needs, List.forall_mem_cons, and_assoc]
  refine isSome_text fun _ _ => isSome_text fun _ _ => isSome_text fun _ _ => ?_
  rw [and_iff_right (no_key _), ← Value.isSome_boolMember]
  exact isSome_bind_of_forall fun _ _ => isSome_stateReply_bind (by simp) fun _ => rfl

/-- The handlers that send a listing for a name. -/
theorem isSome_listing {type : MsgType} {listing : Bytes → Listing} {crlf : Bool}
    (h : Reader.parse data = some (ok, root)) :
    (withRoot s data fun root => do
      let userName ← root.stringMember (ascii "username")
      let json ← listingReply type (listing userName)
      return (s, [{ json, crlf }])).isSome ↔
    (ok = true → root.TextAt (ascii "username") ∧
      ∀ name, root.stringMember (ascii "username") = some name → (listing name).Storable) := by
  rw [isSome_withRoot h]
  refine imp_congr_right fun _ => isSome_text fun name hname => ?_
  refine (isSome_listingReply_bind fun _ => rfl).trans ⟨?_, fun h => h name hname⟩
  rintro h name' hname'
  rw [hname] at hname'
  cases hname'
  exact h

theorem isSome_onGetSearchInfoResponse (h : Reader.parse data = some (ok, root)) :
    (onGetSearchInfoResponse s data).isSome ↔
      (ok = true → Needs s.manager e root .loadInfoSearch) := by
  rw [onGetSearchInfoResponse, isSome_withRoot h]
  refine imp_congr_right fun _ => ?_
  rw [Needs, ← Value.isSome_stringMember]
  exact isSome_bind_of_forall fun _ _ => rfl

theorem isSome_onUploadTextResponse (h : Reader.parse data = some (ok, root)) :
    (onUploadTextResponse s e data).isSome ↔ (ok = true → Needs s.manager e root .uploadText) := by
  have hstored : ∀ key t, root.stringMember key = some t → Storable t :=
    fun _ _ => Reader.storable_of_stringMember h
  rw [onUploadTextResponse, isSome_withRoot h]
  refine imp_congr_right fun _ => ?_
  simp only [Needs, List.forall_mem_cons]
  refine isSome_text fun _ h₁ => isSome_text fun _ _ => isSome_text fun _ h₂ =>
    isSome_text fun _ h₃ => isSome_text fun _ h₄ => ?_
  refine iff_of_true (isSome_stateReply_bind ?_ fun _ => rfl) (no_key _)
  split
  · simp [hstored _ _ h₁, hstored _ _ h₂, hstored _ _ h₃, hstored _ _ h₄]
  · simp

theorem isSome_onUploadAudioResponse (h : Reader.parse data = some (ok, root)) :
    (onUploadAudioResponse s e data).isSome ↔
      (ok = true → Needs s.manager e root .uploadAudio) := by
  have hstored : ∀ key t, root.stringMember key = some t → Storable t :=
    fun _ _ => Reader.storable_of_stringMember h
  rw [onUploadAudioResponse, isSome_withRoot h]
  refine imp_congr_right fun _ => ?_
  simp only [Needs, List.forall_mem_cons]
  refine isSome_text fun _ h₁ => isSome_text fun _ _ => isSome_text fun _ h₂ =>
    isSome_text fun _ h₃ => isSome_text fun _ h₄ => isSome_text fun _ h₅ => ?_
  refine iff_of_true (isSome_stateReply_bind ?_ fun _ => rfl) (no_key _)
  split
  · simp [hstored _ _ h₁, hstored _ _ h₂, hstored _ _ h₃, hstored _ _ h₄, hstored _ _ h₅]
  · simp

theorem isSome_onUploadVideoResponse (h : Reader.parse data = some (ok, root)) :
    (onUploadVideoResponse s e data).isSome ↔
      (ok = true → Needs s.manager e root .uploadVideo) := by
  have hstored : ∀ key t, root.stringMember key = some t → Storable t :=
    fun _ _ => Reader.storable_of_stringMember h
  rw [onUploadVideoResponse, isSome_withRoot h]
  refine imp_congr_right fun _ => ?_
  simp only [Needs, List.forall_mem_cons]
  refine isSome_text fun _ h₁ => isSome_text fun _ _ => isSome_text fun _ h₂ =>
    isSome_text fun _ h₃ => isSome_text fun _ h₄ => isSome_text fun _ h₅ =>
    isSome_text fun _ h₆ => ?_
  refine iff_of_true (isSome_stateReply_bind ?_ fun _ => rfl) (no_key _)
  split
  · simp [hstored _ _ h₁, hstored _ _ h₂, hstored _ _ h₃, hstored _ _ h₄, hstored _ _ h₅,
      hstored _ _ h₆]
  · simp

/-- The lookup of a name that the message carries. -/
theorem found_iff {name : Bytes} (hname : root.stringMember (ascii "username") = some name) :
    (s.manager.getUserInfoByUsername name {}).1 = true ↔ KnownUser s.manager root := by
  unfold KnownUser UserManager.getUserInfoByUsername
  rw [hname]
  constructor
  · intro h
    split at h
    · next user huser =>
      have heq := List.find?_some huser
      exact ⟨user, List.mem_of_find?_eq_some huser, by simpa using (of_decide_eq_true heq).symm⟩
    · cases h
  · rintro ⟨user, huser, heq⟩
    cases heq
    split
    · rfl
    · next hnone =>
      have hne := List.find?_eq_none.1 hnone user huser
      simp at hne

theorem isSome_onAddHistoryInfoResponse (h : Reader.parse data = some (ok, root)) :
    (onAddHistoryInfoResponse s e data).isSome ↔
      (ok = true → Needs s.manager e root .addHistory) := by
  have hstored : ∀ key t, root.stringMember key = some t → Storable t :=
    fun _ _ => Reader.storable_of_stringMember h
  rw [onAddHistoryInfoResponse, isSome_withRoot h]
  refine imp_congr_right fun _ => isSome_text fun name hname => ?_
  rw [← found_iff hname]
  dsimp only
  split
  · next hfound =>
    simp only [hfound, true_imp_iff, List.forall_mem_cons]
    refine isSome_text fun _ h₁ => isSome_text fun _ h₂ => ?_
    refine iff_of_true (isSome_stateReply_bind ?_ fun _ => rfl) (no_key _)
    split
    · simp [hstored _ _ h₁, hstored _ _ h₂, hstored _ _ hname]
    · simp
  · next hfound =>
    exact iff_of_true (isSome_stateReply_bind (by simp) fun _ => rfl) fun h => absurd h hfound

theorem isSome_onAddCollectInfoResponse (h : Reader.parse data = some (ok, root)) :
    (onAddCollectInfoResponse s e data).isSome ↔
      (ok = true → Needs s.manager e root .addCollect) := by
  have hstored : ∀ key t, root.stringMember key = some t → Storable t :=
    fun _ _ => Reader.storable_of_stringMember h
  rw [onAddCollectInfoResponse, isSome_withRoot h]
  refine imp_congr_right fun _ => isSome_text fun name hname => ?_
  rw [← found_iff hname]
  dsimp only
  split
  · next hfound =>
    simp only [hfound, true_imp_iff, List.forall_mem_cons, and_assoc]
    refine isSome_text fun title h₁ => isSome_text fun fileType h₂ => ?_
    rw [and_iff_right (no_key _), ← Value.isSome_intMember]
    have hreply : ∀ f : Value → Value → Value → Handled, (∀ u v w, (f u v w).isSome) →
        ((Value.ofString title).bind fun u => (Value.ofString fileType).bind fun v =>
          (Value.ofString name).bind (f u v)).isSome := by
      intro f hf
      refine (isSome_ofString_bind fun u => isSome_ofString_bind fun v =>
        isSome_ofString_bind (P := True) fun w => iff_true_intro (hf u v w)).2 ?_
      exact ⟨hstored _ _ h₁, hstored _ _ h₂, hstored _ _ hname, trivial⟩
    refine isSome_bind_of_forall fun cState _ => ?_
    split <;> split
    · exact hreply _ fun _ _ _ => rfl
    · exact isSome_stateReply_bind (by simp) fun _ => rfl
    · exact hreply _ fun _ _ _ => rfl
    · exact isSome_stateReply_bind (by simp) fun _ => rfl
  · next hfound =>
    exact iff_of_true (isSome_stateReply_bind (by simp) fun _ => rfl) fun h => absurd h hfound

/-- What the message that `OnLoginResponse` writes itself is read as. -/
theorem parse_uJsonStr (t : Bytes) :
    Reader.parse (Writer.write (.object [(ascii "username", .string t)])) =
      (Reader.decodeString (Writer.escape t)).elim
        (some (false, .object [(ascii "username", .null)])) fun name =>
          (Value.ofString name).map fun v => (true, .object [(ascii "username", v)]) := by
  rw [Writer.parse_write_username]
  cases Reader.decodeString (Writer.escape t) <;> rfl

/-- A listing for the name in the message that `OnLoginResponse` writes itself. -/
theorem isSome_listing_uJsonStr {type : MsgType} {listing : Bytes → Listing} {crlf : Bool}
    (t : Bytes) :
    (withRoot s (Writer.write (.object [(ascii "username", .string t)])) fun root => do
      let userName ← root.stringMember (ascii "username")
      let json ← listingReply type (listing userName)
      return (s, [{ json, crlf }])).isSome ↔
    ∀ name, Reader.decodeString (Writer.escape t) = some name →
      Storable name ∧ (listing (stored name)).Storable := by
  have hparse := parse_uJsonStr t
  cases hdecode : Reader.decodeString (Writer.escape t) with
  | none =>
    rw [hdecode] at hparse
    exact (isSome_listing hparse).trans (iff_of_true nofun nofun)
  | some name =>
    rw [hdecode, Option.elim_some] at hparse
    by_cases hname : Storable name
    · rw [Value.ofString, if_pos hname, Option.map_some] at hparse
      rw [isSome_listing hparse]
      constructor
      · intro h name' heq
        cases heq
        exact ⟨hname, (h rfl).2 _ rfl⟩
      · intro h _
        refine ⟨⟨_, rfl, trivial⟩, fun name' hname' => ?_⟩
        cases hname'
        exact (h name rfl).2
    · rw [Value.ofString, if_neg hname, Option.map_none] at hparse
      simp [withRoot, hparse, hname]

/-- A listing does not change the server. -/
theorem server_of_listing {type : MsgType} {listing : Bytes → Listing} {crlf : Bool}
    {r : Server × List Reply}
    (h : (withRoot s data fun root => do
      let userName ← root.stringMember (ascii "username")
      let json ← listingReply type (listing userName)
      return (s, [{ json, crlf }])) = some r) : r.1 = s := by
  obtain ⟨⟨ok, root⟩, -, h⟩ := Option.bind_eq_some_iff.1 h
  dsimp only at h
  split at h
  · obtain ⟨userName, -, h⟩ := Option.bind_eq_some_iff.1 h
    obtain ⟨json, -, h⟩ := Option.bind_eq_some_iff.1 h
    cases h
    rfl
  · cases h
    rfl

theorem isSome_loginReply {state : ℤ} {user : User} :
    (loginReply state user).isSome ↔ Storable user.username ∧ Storable user.custimface := by
  rw [← and_true (Storable user.custimface)]
  exact isSome_ofString_bind fun _ => isSome_ofString_bind fun _ => by simp

/-- The three listings of a login, for the stored name of the user. -/
theorem isSome_login_listings {user : User} {json : Value} {uJsonStr : Bytes}
    (huJsonStr : uJsonStr =
      Writer.write (.object [(ascii "username", .string (stored user.username))])) :
    ((onGetDynamicInfoResponse s uJsonStr).bind fun r =>
      (onGetHistoryInfoResponse r.1 e uJsonStr).bind fun r' =>
        (onGetCollectInfoResponse r'.1 e uJsonStr).bind fun r'' =>
          some (r''.1, ({ json } : Reply) :: (r.2 ++ r'.2 ++ r''.2))).isSome ↔
    ∀ name, Reader.decodeString (Writer.escape (stored user.username)) = some name →
      Storable name ∧ (s.manager.getDynamicInfoFromDB (stored name)).Storable ∧
        (s.manager.getRowsInfoFromDB e.historyRows (stored name)).2.Storable ∧
        (s.manager.getRowsInfoFromDB e.collectRows (stored name)).2.Storable := by
  have hdynamic : ∀ r, onGetDynamicInfoResponse s uJsonStr = some r → r.1 = s :=
    fun _ => server_of_listing
  have hhistory : ∀ r, onGetHistoryInfoResponse s e uJsonStr = some r → r.1 = s :=
    fun _ => server_of_listing
  refine (isSome_bind_iff (P := (onGetHistoryInfoResponse s e uJsonStr).isSome ∧
    (onGetCollectInfoResponse s e uJsonStr).isSome) fun r hr => ?_).trans ?_
  · rw [hdynamic r hr]
    refine isSome_bind_iff fun r' hr' => ?_
    rw [hhistory r' hr']
    exact isSome_bind_of_forall fun _ _ => rfl
  · subst huJsonStr
    refine (and_congr (isSome_listing_uJsonStr _) (and_congr (isSome_listing_uJsonStr _)
      (isSome_listing_uJsonStr _))).trans ⟨fun h name hname => ?_, fun h => ?_⟩
    · exact ⟨(h.1 name hname).1, (h.1 name hname).2, (h.2.1 name hname).2, (h.2.2 name hname).2⟩
    · exact ⟨fun name hname => ⟨(h name hname).1, (h name hname).2.1⟩,
        fun name hname => ⟨(h name hname).1, (h name hname).2.2.1⟩,
        fun name hname => ⟨(h name hname).1, (h name hname).2.2.2⟩⟩

theorem eq_of_ofString {t : Bytes} {v : Value} (h : Value.ofString t = some v) :
    v = .string (stored t) := by
  unfold Value.ofString at h
  split at h
  · cases h
    rfl
  · cases h

theorem isSome_onLoginResponse (h : Reader.parse data = some (ok, root)) :
    (onLoginResponse s e data).isSome ↔ (ok = true → Needs s.manager e root .login) := by
  rw [onLoginResponse, isSome_withRoot h]
  refine imp_congr_right fun _ => ?_
  simp only [Needs, List.forall_mem_cons, and_assoc]
  refine isSome_text fun name hname => isSome_text fun password _ => ?_
  rw [and_iff_right (no_key _)]
  have huser : (loginState s.manager name password).2 =
      (s.manager.getUserInfoByUsername name {}).2 := rfl
  have hlistable : (∀ name', root.stringMember (ascii "username") = some name' →
      LoginListable s.manager e (s.manager.getUserInfoByUsername name' {}).2) ↔
        LoginListable s.manager e (s.manager.getUserInfoByUsername name {}).2 := by
    refine ⟨fun h => h name hname, fun h name' hname' => ?_⟩
    rw [hname] at hname'
    cases hname'
    exact h
  rw [hlistable, ← huser]
  generalize loginState s.manager name password = p
  obtain ⟨state, user⟩ := p
  refine (isSome_bind_iff fun json _ => isSome_bind_iff fun uName huName =>
    isSome_login_listings (by rw [eq_of_ofString huName])).trans ?_
  rw [isSome_loginReply, Value.isSome_ofString]
  exact ⟨fun h => ⟨h.1.1, h.1.2, h.2.2⟩, fun h => ⟨⟨h.1, h.2.1⟩, h.1, h.2.2⟩⟩

/-- **A handler returns when its message has what it needs.** -/
theorem isSome_handle (h : Reader.parse data = some (ok, root)) (type : MsgType) :
    (handle s e type data).isSome ↔ (ok = true → Needs s.manager e root type) ∧
      (type = .loadInfoNormal → s.manager.getInfoFromDB.Storable) := by
  cases type with
  | heartbeat => exact iff_of_true rfl ⟨fun _ => trivial, nofun⟩
  | loadInfoNormal =>
    refine (isSome_listingReply_bind fun _ => rfl).trans ⟨fun h => ⟨fun _ => trivial, fun _ => h⟩, ?_⟩
    exact fun h => h.2 rfl
  | login => exact (isSome_onLoginResponse h).trans (and_iff_left nofun).symm
  | register => exact (isSome_onRegisterResponse h).trans (and_iff_left nofun).symm
  | uploadVideo => exact (isSome_onUploadVideoResponse h).trans (and_iff_left nofun).symm
  | uploadAudio => exact (isSome_onUploadAudioResponse h).trans (and_iff_left nofun).symm
  | uploadText => exact (isSome_onUploadTextResponse h).trans (and_iff_left nofun).symm
  | loadInfoHistory => exact (isSome_listing h).trans (and_iff_left nofun).symm
  | loadInfoDynamic => exact (isSome_listing h).trans (and_iff_left nofun).symm
  | loadInfoCollect => exact (isSome_listing h).trans (and_iff_left nofun).symm
  | loadInfoSearch => exact (isSome_onGetSearchInfoResponse h).trans (and_iff_left nofun).symm
  | addHistory => exact (isSome_onAddHistoryInfoResponse h).trans (and_iff_left nofun).symm
  | addCollect => exact (isSome_onAddCollectInfoResponse h).trans (and_iff_left nofun).symm

end Handlers

/-! ## Messages -/

/-- Nothing throws on the message: the parser returns, the type of the message can be read, and the
handler that is called has what it needs. -/
def Safe (s : Server) (e : Surroundings) (msgbuff : Bytes) : Prop :=
  ∃ ok root, Reader.parse msgbuff = some (ok, root) ∧ root.IntAt (ascii "msgType") ∧
    ∀ type, (root.intMember (ascii "msgType")).bind MsgType.ofCode = some type →
      (ok = true → Needs s.manager e root type) ∧
        (type = .loadInfoNormal → s.manager.getInfoFromDB.Storable)

theorem isSome_process {s : Server} {e : Surroundings} {msgbuff : Bytes} {ok : Bool} {root : Value}
    (hparse : Reader.parse msgbuff = some (ok, root)) :
    (process s e msgbuff).isSome ↔ ∃ cmd, root.intMember (ascii "msgType") = some cmd ∧
      ∀ type, MsgType.ofCode cmd = some type → (handle s e type msgbuff).isSome := by
  simp only [process, messageType, hparse, Option.bind_eq_bind, Option.bind_some, isSome_bind]
  constructor
  · rintro ⟨_, htype, h⟩
    obtain ⟨cmd, hcmd, heq⟩ := Option.bind_eq_some_iff.1 htype
    cases heq
    refine ⟨cmd, hcmd, fun type htype => ?_⟩
    rw [htype] at h
    exact h
  · rintro ⟨cmd, hcmd, h⟩
    refine ⟨_, Option.bind_eq_some_iff.2 ⟨cmd, hcmd, rfl⟩, ?_⟩
    cases htype : MsgType.ofCode cmd with
    | none => rfl
    | some type => exact h type htype

/-- **`Process` returns exactly on the safe messages.** -/
theorem isSome_process_iff (s : Server) (e : Surroundings) (msgbuff : Bytes) :
    (process s e msgbuff).isSome ↔ Safe s e msgbuff := by
  constructor
  · intro h
    cases hparse : Reader.parse msgbuff with
    | none => simp [process, messageType, hparse] at h
    | some p =>
      obtain ⟨ok, root⟩ := p
      obtain ⟨cmd, hcmd, h⟩ := (isSome_process hparse).1 h
      refine ⟨ok, root, hparse, Value.isSome_intMember.1 (by rw [hcmd]; rfl), fun type htype => ?_⟩
      rw [hcmd] at htype
      exact (isSome_handle hparse type).1 (h type htype)
  · rintro ⟨ok, root, hparse, hint, h⟩
    obtain ⟨cmd, hcmd⟩ := Option.isSome_iff_exists.1 (Value.isSome_intMember.2 hint)
    refine (isSome_process hparse).2 ⟨cmd, hcmd, fun type htype => ?_⟩
    exact (isSome_handle hparse type).2 (h type (by rw [hcmd]; exact htype))

end ClientSession

end GraduationServer
