import GraduationServer.Client.Uploads
import GraduationServer.Users.Favourites

/-!
# Changes of the favourites

A request for a change of the favourites names a user, a type and a title. What the table holds of a
user's favourites after some requests is what the last one says that was answered with success, and
without one what it held before (`mem_serve_iff`): an answer tells whether the statement was carried
out, and the users are told apart by their identifiers. So the listing obeys the last such request
(`listed_favourites`).
-/

namespace GraduationServer

open Json QuotedText

namespace ClientSession

variable {s s' : Server} {replies : List Reply}

/-- A request to add or remove a favourite, with what its handler takes from outside. -/
structure CollectRequest where
  data : Bytes
  root : Value
  surroundings : Surroundings
  username : Bytes
  title : Bytes
  fileType : Bytes
  collectState : ℤ
  parsed : Reader.parse data = some (true, root)
  typed : messageType data = some (some .addCollect)
  named : root.stringMember (ascii "username") = some username
  titled : root.stringMember (ascii "title") = some title
  filed : root.stringMember (ascii "fileType") = some fileType
  stated : root.intMember (ascii "collectState") = some collectState
  plain : ∀ v ∈ [getTableID surroundings.idSuffix (ascii "collect"), fileType, title], Plain v

namespace CollectRequest

/-- The message as a client sends it. -/
def message (q : CollectRequest) : Surroundings × Bytes := (q.surroundings, q.data)

/-- The request adds. -/
def adds (q : CollectRequest) : Bool := 0 < q.collectState

/-- The request is about an asset among the favourites of a user. -/
def Concerns (q : CollectRequest) (username type title : Bytes) : Prop :=
  q.username = username ∧ q.fileType = type ∧ q.title = title

instance (q : CollectRequest) (username type title : Bytes) :
    Decidable (q.Concerns username type title) := inferInstanceAs (Decidable (_ ∧ _ ∧ _))

/-- The favourite of a user that the request changes. -/
def favourite (q : CollectRequest) (u : User) : Favourite := ⟨u.uID, q.fileType, q.title⟩

end CollectRequest

/-- The replies tell of success. -/
def Succeeds (replies : List Reply) : Prop := replies.head?.bind Reply.state = some 1

instance (replies : List Reply) : Decidable (Succeeds replies) := inferInstanceAs (Decidable (_ = _))

/-- Whether the last request about an asset that was answered with success adds it. -/
def lastAnswered (username type title : Bytes) :
    List CollectRequest → List (List Reply) → Option Bool
  | q :: requests, replies :: answers =>
    (lastAnswered username type title requests answers).or
      (if q.Concerns username type title ∧ Succeeds replies then some q.adds else none)
  | _, _ => none

/-! ## One request -/

/-- The user that the lookup finds. -/
theorem of_lookup {m : UserManager} {username : Bytes} {user u : User}
    (h : m.getUserInfoByUsername username user = (true, u)) :
    u ∈ m.cachedUsers ∧ u.username = username := by
  unfold UserManager.getUserInfoByUsername at h
  split at h
  · next hfind =>
    cases h
    exact ⟨List.mem_of_find?_eq_some hfind, by simpa using List.find?_some hfind⟩
  · cases h

/-- The call of a request. -/
theorem collectWrite_eq (q : CollectRequest) (u : User) :
    collectWrite u q.surroundings.idSuffix q.title q.fileType q.collectState =
      (q.favourite u).write (getTableID q.surroundings.idSuffix (ascii "collect")) q.adds := by
  simp [collectWrite, Favourite.write, CollectRequest.adds, CollectRequest.favourite]

/-- The values of its statement are plain. -/
theorem plain_write (q : CollectRequest) {u : User} (hu : Plain u.uID) :
    ∀ v ∈ ((q.favourite u).write (getTableID q.surroundings.idSuffix (ascii "collect"))
      q.adds).values, Plain v := by
  have hplain := q.plain
  simp only [List.forall_mem_cons] at hplain
  obtain ⟨hid, htype, htitle, -⟩ := hplain
  cases q.adds <;>
    simp [Favourite.write, Write.values, CollectRequest.favourite, hu, hid, htype, htitle]

/-- A request of a known user makes one call, and its reply tells whether that has succeeded. For an unknown
user nothing changes, and the reply does not tell of success. -/
theorem call_of_collectRequest {q : CollectRequest}
    (h : process s q.surroundings q.data = some (s', replies)) :
    (Unknown s.manager q.username ∧ s' = s ∧ ¬ Succeeds replies) ∨
      ∃ u ok, s.manager.getUserInfoByUsername q.username {} = (true, u) ∧
        s.call ((q.favourite u).write (getTableID q.surroundings.idSuffix (ascii "collect")) q.adds)
          q.surroundings.attempt = (ok, s') ∧ (Succeeds replies ↔ ok = true) := by
  rw [process_of_messageType q.typed] at h
  obtain ⟨username, hname, reply, rfl, hcases⟩ := of_onAddCollectInfoResponse q.parsed h
  rw [q.named] at hname
  cases hname
  rcases hcases with ⟨hunknown, rfl, hstate⟩ | ⟨u, title, fileType, cState, hu, htitle, hfile, hc, hs,
    hstate⟩
  · refine Or.inl ⟨hunknown, rfl, ?_⟩
    rw [Succeeds, List.head?_cons, Option.bind_some, hstate]
    decide
  · rw [q.titled] at htitle
    rw [q.filed] at hfile
    rw [q.stated] at hc
    cases htitle
    cases hfile
    cases hc
    rw [collectWrite_eq] at hs hstate
    generalize hcall : s.call _ _ = r at hs hstate
    obtain ⟨ok, after⟩ := r
    obtain rfl : s' = after := hs
    refine Or.inr ⟨u, ok, hu, hcall, ?_⟩
    rw [Succeeds, List.head?_cons, Option.bind_some, hstate]
    cases ok <;> simp

/-- **A request obeys its answer**: the favourite of the user is changed if and only if the reply tells
of success. For an unknown user nothing changes, and the reply does not. -/
theorem of_collectRequest {q : CollectRequest} (hcovered : Covered s)
    (hplain : ∀ u ∈ s.manager.cachedUsers, Plain u.uID)
    (h : process s q.surroundings q.data = some (s', replies)) :
    (Unknown s.manager q.username ∧ s' = s ∧ ¬ Succeeds replies) ∨
      ∃ u, s.manager.getUserInfoByUsername q.username {} = (true, u) ∧
        Obeys s s' (q.favourite u) q.adds (decide (Succeeds replies)) := by
  refine (call_of_collectRequest h).imp_right fun ⟨u, ok, hu, hcall, hok⟩ => ⟨u, hu, ?_⟩
  rw [decide_eq_decide.2 hok, Bool.decide_coe]
  exact hcovered.call (plain_write q (hplain u (of_lookup hu).1)) hcall

/-- A request to remove a favourite of which there is no record is refused. -/
theorem refused_of_no_record {q : CollectRequest} {u : User} (hremoves : q.adds = false)
    (hu : s.manager.getUserInfoByUsername q.username {} = (true, u))
    (hrecord : ¬ s.manager.cacheCollectInfo.any (q.favourite u).isRecord = true)
    (h : process s q.surroundings q.data = some (s', replies)) : s' = s ∧ ¬ Succeeds replies := by
  rcases call_of_collectRequest h with ⟨-, rfl, hfailed⟩ | ⟨v, ok, hv, hcall, hok⟩
  · exact ⟨rfl, hfailed⟩
  · cases hu.symm.trans hv
    have hrefuses : s.call ((q.favourite u).write (getTableID q.surroundings.idSuffix (ascii "collect"))
        false) q.surroundings.attempt = (false, s) := if_neg hrecord
    rw [hremoves, hrefuses] at hcall
    cases hcall
    exact ⟨rfl, fun hsucceeds => Bool.false_ne_true (hok.1 hsucceeds)⟩

/-! ## Runs -/

/-- What does not change along a run of such requests: the cache covers the table, and the users and
assets are those of the start. -/
structure Keeps (s s' : Server) : Prop where
  covered : Covered s'
  manager : ∃ infos, s'.manager = { s.manager with cacheCollectInfo := infos }

theorem Keeps.users (h : Keeps s s') : s'.manager.cachedUsers = s.manager.cachedUsers := by
  obtain ⟨infos, hinfos⟩ := h.manager
  rw [hinfos]

theorem Keeps.lookup (h : Keeps s s') (username : Bytes) (user : User) :
    s'.manager.getUserInfoByUsername username user =
      s.manager.getUserInfoByUsername username user := by
  rw [UserManager.getUserInfoByUsername, h.users]
  rfl

/-- The step of a run: what the table holds of a favourite afterwards. -/
theorem keeps_process {q : CollectRequest} (hcovered : Covered s)
    (hids : (s.manager.cachedUsers.map User.uID).Nodup)
    (hplain : ∀ u ∈ s.manager.cachedUsers, Plain u.uID)
    (h : process s q.surroundings q.data = some (s', replies)) :
    Keeps s s' ∧ ∀ username u, s.manager.getUserInfoByUsername username {} = (true, u) →
      ∀ type title, Favourite.Mem ⟨u.uID, type, title⟩ s'.db ↔
        if q.Concerns username type title ∧ Succeeds replies then q.adds = true
        else Favourite.Mem ⟨u.uID, type, title⟩ s.db := by
  rcases of_collectRequest hcovered hplain h with ⟨hunknown, rfl, hfailed⟩ | ⟨v, hv, hobeys⟩
  · refine ⟨⟨hcovered, _, rfl⟩, fun username u hu type title => ?_⟩
    rw [if_neg fun h => hfailed h.2]
  · refine ⟨⟨hobeys.covered, hobeys.manager⟩, fun username u hu type title => ?_⟩
    -- users with different names have different identifiers
    have hconcerns : q.Concerns username type title ↔
        (⟨u.uID, type, title⟩ : Favourite) = q.favourite v := by
      obtain ⟨humem, huname⟩ := of_lookup hu
      obtain ⟨hvmem, hvname⟩ := of_lookup hv
      constructor
      · rintro ⟨rfl, rfl, rfl⟩
        rw [hu] at hv
        cases hv
        rfl
      · intro heq
        obtain ⟨huid, htype, htitle⟩ := Favourite.mk.inj heq
        obtain rfl := List.inj_on_of_nodup_map hids humem hvmem huid
        exact ⟨hvname.symm.trans huname, htype.symm, htitle.symm⟩
    rw [hobeys.mem]
    refine iff_of_eq (if_congr ?_ rfl rfl)
    rw [decide_eq_true_eq, hconcerns, and_comm]

/-- **What the table holds of a user's favourites is what the last request says that was answered with
success**, by induction on the requests. -/
theorem mem_serve_iff {requests : List CollectRequest} {answers : List (List Reply)}
    (hcovered : Covered s) (hids : (s.manager.cachedUsers.map User.uID).Nodup)
    (hplain : ∀ u ∈ s.manager.cachedUsers, Plain u.uID)
    (h : serve s (requests.map CollectRequest.message) = some (s', answers)) :
    Keeps s s' ∧ ∀ username u, s.manager.getUserInfoByUsername username {} = (true, u) →
      ∀ type title, Favourite.Mem ⟨u.uID, type, title⟩ s'.db ↔
        lastAnswered username type title requests answers = some true ∨
          (lastAnswered username type title requests answers = none ∧
            Favourite.Mem ⟨u.uID, type, title⟩ s.db) := by
  induction requests generalizing s answers with
  | nil =>
    cases h
    exact ⟨⟨hcovered, _, rfl⟩, fun username u hu type title => by simp [lastAnswered]⟩
  | cons q requests ih =>
    obtain ⟨⟨s₁, replies⟩, hq, h⟩ := Option.bind_eq_some_iff.1 h
    obtain ⟨⟨s₂, later⟩, hlater, h⟩ := Option.bind_eq_some_iff.1 h
    cases h
    obtain ⟨hkeeps, hstep⟩ := keeps_process hcovered hids hplain hq
    obtain ⟨hrest, hmem⟩ := ih hkeeps.covered (by rwa [hkeeps.users]) (by rwa [hkeeps.users]) hlater
    have hmanager : ∃ infos, s'.manager = { s.manager with cacheCollectInfo := infos } := by
      obtain ⟨infos, hinfos⟩ := hkeeps.manager
      obtain ⟨infos', hinfos'⟩ := hrest.manager
      exact ⟨infos', by rw [hinfos', hinfos]⟩
    refine ⟨⟨hrest.covered, hmanager⟩, fun username u hu type title => ?_⟩
    rw [hmem username u ((hkeeps.lookup _ _).trans hu), hstep username u hu, lastAnswered]
    cases lastAnswered username type title requests later with
    | some adds => simp
    | none => split <;> simp

/-- **Favourites obey the last request that was answered with success.** In every state that a run of
such requests reaches after `Init`, a request to remove a favourite is refused for lack of a record only if
the table has no row of it; and the listing of a user shows a cached asset if and only if the last such
request about it has added it, or there was none and the table had a row of it at the start. -/
theorem listed_favourites {db : Database} {loaded : Answers db} {m : UserManager}
    (hinit : init db loaded = some (true, m)) (hids : (m.cachedUsers.map User.uID).Nodup)
    (hplain : ∀ u ∈ m.cachedUsers, Plain u.uID) {requests : List CollectRequest}
    {answers : List (List Reply)}
    (h : serve ⟨db, m⟩ (requests.map CollectRequest.message) = some (s', answers)) :
    (∀ f : Favourite, ¬ s'.manager.cacheCollectInfo.any f.isRecord = true → ¬ f.Mem s'.db ∧
      ∀ (q : CollectRequest) (u : User) (s'' : Server) (replies : List Reply), q.adds = false →
        m.getUserInfoByUsername q.username {} = (true, u) → q.favourite u = f →
          process s' q.surroundings q.data = some (s'', replies) → s'' = s' ∧ ¬ Succeeds replies) ∧
      ∀ (username : Bytes) (u : User) (answer : (u : User) → Option (s'.db.collectsOf u.uID).Selected)
        (selected : (s'.db.collectsOf u.uID).Selected),
        m.getUserInfoByUsername username {} = (true, u) → answer u = some selected →
          ∃ l, s'.getCollectInfoFromDB username answer = some (true, l) ∧
            ∀ (type : AssetType) (asset : Asset) (title : Bytes), asset ∈ s'.manager.assets type →
              asset.title = some title →
                (asset ∈ l.assets type ↔
                  lastAnswered username type.name title requests answers = some true ∨
                    (lastAnswered username type.name title requests answers = none ∧
                      Favourite.Mem ⟨u.uID, type.name, title⟩ db)) := by
  obtain ⟨hkeeps, hmem⟩ := mem_serve_iff (mirror_init hinit).covered hids hplain h
  refine ⟨fun f hrecord => ⟨hkeeps.covered.notMem_of_refused hrecord, ?_⟩,
    fun username u answer selected hu hanswer => ?_⟩
  · rintro q u s'' replies hremoves hu rfl hprocess
    exact refused_of_no_record hremoves ((hkeeps.lookup _ _).trans hu) hrecord hprocess
  · obtain ⟨l, hl, hlisted⟩ :=
      hkeeps.covered.mem_getCollectInfoFromDB ((hkeeps.lookup _ _).trans hu) hanswer
    refine ⟨l, hl, fun type asset title hasset htitle => ?_⟩
    rw [hlisted type asset title htitle, hmem username u hu, and_iff_right hasset]

/-! ## A video is added -/

/-- The request of `ann` to add the video. -/
def annVideo : CollectRequest where
  data := ascii "\x7b\"msgType\":112,\"username\":\"ann\",\"fileType\":\"video\"," ++
    ascii "\"title\":\"v\",\"collectState\":1\x7d"
  root := .ofMembers [(ascii "msgType", .int 112), (ascii "username", .string (ascii "ann")),
    (ascii "fileType", .string (ascii "video")), (ascii "title", .string (ascii "v")),
    (ascii "collectState", .int 1)]
  surroundings := carrying
  username := ascii "ann"
  title := ascii "v"
  fileType := ascii "video"
  collectState := 1
  parsed := rfl
  typed := by decide +kernel
  named := by decide +kernel
  titled := by decide +kernel
  filed := by decide +kernel
  stated := by decide +kernel
  plain := by decide +kernel

/-- The video is listed among the favourites. -/
theorem listed_favourites_annVideo :
    ∃ s' answers l, serve ⟨smallDatabase, smallManager⟩ [annVideo.message] = some (s', answers) ∧
      s'.getCollectInfoFromDB (ascii "ann") (fun u => some ⟨(s'.db.collectsOf u.uID).rows, .rfl⟩) =
        some (true, l) ∧
      ∀ asset ∈ s'.manager.assets .video, asset.title = some (ascii "v") → asset ∈ l.assets .video := by
  have hserved : (serve ⟨smallDatabase, smallManager⟩ [annVideo.message]).map
      (fun p => lastAnswered (ascii "ann") (ascii "video") (ascii "v") [annVideo] p.2) =
        some (some true) := by
    decide +kernel
  obtain ⟨⟨s', answers⟩, h, hlast⟩ := Option.map_eq_some_iff.1 hserved
  obtain ⟨u, hu⟩ : ∃ u, smallManager.getUserInfoByUsername (ascii "ann") {} = (true, u) :=
    ⟨_, Prod.ext (by decide +kernel) rfl⟩
  obtain ⟨l, hl, hlisted⟩ := (@listed_favourites _ _ _ _ init_smallDatabase (by decide +kernel)
    (by decide +kernel) [annVideo] answers h).2 (ascii "ann") u
      (fun u => some ⟨(s'.db.collectsOf u.uID).rows, .rfl⟩) _ hu rfl
  refine ⟨s', answers, l, h, hl, fun asset hasset htitle => ?_⟩
  exact (hlisted .video asset (ascii "v") hasset htitle).2 (Or.inl hlast)

end ClientSession

end GraduationServer
