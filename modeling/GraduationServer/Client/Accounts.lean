import GraduationServer.Client.Uploads

/-!
# Accounts

No message takes a user from the manager or changes one, and the lookup by name finds the first. So a
user who has registered can log in for good, unless somebody had the name before with another
password: the registration is accepted all the same, since the key of `tab_user` is the identifier,
and the login finds the other user (`login_after_register_iff`).

A login that fails is answered with the user's data and followed by the user's listings as a
successful one is; even the sex of the user can be told from the bytes (`login_reveals`).
-/

namespace GraduationServer

open Json

namespace Server

/-- A call leaves the users in front as they are. -/
theorem users_of_call (s : Server) (w : Write) (a : Attempt) :
    s.manager.cachedUsers <+: (s.call w a).2.manager.cachedUsers := by
  have hwrite : ∀ (s' : Server) change, (∀ m : UserManager, m.cachedUsers <+: (change m).cachedUsers) →
      s'.manager.cachedUsers <+: (s'.write w a change).2.manager.cachedUsers := by
    intro s' change hchange
    rcases s'.write_cases w a change with ⟨-, hwrite⟩ | ⟨db, -, hwrite⟩
    · rw [hwrite]
    · rw [hwrite]
      exact hchange s'.manager
  cases w with
  | addUser user =>
    refine hwrite ⟨s.db, { s.manager with baseUserID := s.manager.baseUserID + 1 }⟩ _ ?_
    exact fun m => List.prefix_append _ _
  | removeOneCollectInfo uID assetsTitle assetsType =>
    simp only [call, removeOneCollectInfo]
    split
    · exact hwrite s _ fun m => List.prefix_refl _
    · exact List.prefix_refl _
  | _ => exact hwrite s _ fun m => List.prefix_refl _

/-- A user who is added stands behind the others. -/
theorem users_of_addUser {s : Server} {user : User} {a : Attempt} (h : (s.addUser user a).1 = true) :
    ∃ id, (s.addUser user a).2.manager.cachedUsers =
      s.manager.cachedUsers ++ [{ user with userid := id }] := by
  unfold addUser at h ⊢
  rcases write_cases _ (.addUser user) a _ with ⟨-, hwrite⟩ | ⟨db, -, hwrite⟩
  · rw [hwrite] at h
    cases h
  · rw [hwrite]
    exact ⟨_, rfl⟩

end Server

namespace ClientSession

variable {s s' : Server} {e : Surroundings} {data : Bytes} {root : Value} {replies : List Reply}

/-! ## Registering and logging in -/

/-- No message takes a user away or changes one. -/
theorem users_of_process (h : process s e data = some (s', replies)) :
    s.manager.cachedUsers <+: s'.manager.cachedUsers := by
  rcases of_process h with ⟨rfl, -⟩ | ⟨type, -, h⟩
  · exact List.prefix_refl _
  · rcases server_of_handle h with rfl | ⟨w, rfl⟩
    · exact List.prefix_refl _
    · exact Server.users_of_call s w _

theorem users_of_serve {messages : List (Surroundings × Bytes)} {answers : List (List Reply)}
    (h : serve s messages = some (s', answers)) : s.manager.cachedUsers <+: s'.manager.cachedUsers :=
  serve_keeps (P := fun t => s.manager.cachedUsers <+: t.manager.cachedUsers)
    (fun _ _ _ _ _ ht hm => ht.trans (users_of_process hm)) (List.prefix_refl _) h

/-- A message of the given type with the given name and password. -/
def Carries (type : MsgType) (username password data : Bytes) : Prop :=
  messageType data = some (some type) ∧ ∃ root, Reader.parse data = some (true, root) ∧
    root.stringMember (ascii "username") = some username ∧
    root.stringMember (ascii "password") = some password

/-- A registration that is answered with success adds a user. -/
theorem users_of_registration {username password : Bytes} {reply : Reply}
    (hdata : Carries .register username password data)
    (h : process s e data = some (s', reply :: replies)) (hanswer : reply.state = some 1) :
    ∃ user : User, user.username = username ∧ user.password = password ∧
      s'.manager.cachedUsers = s.manager.cachedUsers ++ [user] := by
  obtain ⟨htype, root, hparse, hname, hpassword⟩ := hdata
  rw [process_of_messageType htype] at h
  obtain ⟨user, huser, huser', rfl, reply', hreplies, hstate⟩ := of_onRegisterResponse hparse h
  cases hreplies
  rw [hname] at huser
  rw [hpassword] at huser'
  cases huser
  cases huser'
  have hok : (s.addUser user e.attempt).1 = true := by
    by_contra hfailed
    rw [hanswer, if_neg hfailed] at hstate
    cases hstate
  obtain ⟨id, husers⟩ := Server.users_of_addUser hok
  exact ⟨{ user with userid := id }, rfl, rfl, husers⟩

/-- The login of a name that somebody has is accepted when the first of them has the password. -/
theorem correct_iff {m : UserManager} {username password : Bytes} {user : User}
    (h : m.cachedUsers.find? (fun u => u.username = username) = some user) :
    (loginState m username password).1 = 1 ↔ user.password = password := by
  have hname : user.username = username := by simpa using List.find?_some h
  have hlookup : m.getUserInfoByUsername username {} = (true, user) := by
    rw [UserManager.getUserInfoByUsername, h]
  rw [loginState_eq_one_iff, or_iff_left]
  · constructor
    · rintro ⟨_, heq, -, hpassword⟩
      rw [hlookup] at heq
      cases heq
      exact hpassword
    · exact fun hpassword => ⟨user, hlookup, hname, hpassword⟩
  · rintro ⟨-, -, hunknown⟩
    exact hunknown user (List.mem_of_find?_eq_some h) hname

/-- **A registered user can log in for good exactly when nobody had the name before, or the first who
had it has the same password**, whatever messages come in between. -/
theorem login_after_register_iff {s₁ s₂ s₃ : Server} {e₁ e₂ : Surroundings}
    {registration login username password : Bytes} {reply₁ reply₂ : Reply}
    {replies₁ replies₂ : List Reply} {between : List (Surroundings × Bytes)}
    {answers : List (List Reply)} (hregistration : Carries .register username password registration)
    (hregister : process s e₁ registration = some (s₁, reply₁ :: replies₁))
    (hanswer : reply₁.state = some 1) (hbetween : serve s₁ between = some (s₂, answers))
    (hlogin : Carries .login username password login)
    (hlog : process s₂ e₂ login = some (s₃, reply₂ :: replies₂)) :
    reply₂.state = some 1 ↔
      ∀ user, s.manager.getUserInfoByUsername username {} = (true, user) →
        user.password = password := by
  obtain ⟨user, hname, hpassword, husers⟩ := users_of_registration hregistration hregister hanswer
  obtain ⟨later, hlater⟩ := users_of_serve hbetween
  obtain ⟨htype, root, hparse, hrootName, hrootPassword⟩ := hlogin
  rw [process_of_messageType htype] at hlog
  rw [state_of_onLoginResponse hparse hrootName hrootPassword hlog, Option.some_inj]
  have hfind : s₂.manager.cachedUsers.find? (fun u => u.username = username) =
      (s.manager.cachedUsers.find? fun u => u.username = username).or (some user) := by
    rw [← hlater, husers, List.append_assoc, List.find?_append]
    simp [hname]
  cases hold : s.manager.cachedUsers.find? fun u => u.username = username with
  | none =>
    rw [hold, Option.none_or] at hfind
    rw [correct_iff hfind, UserManager.getUserInfoByUsername, hold]
    exact iff_of_true hpassword fun _ heq => by cases heq
  | some old =>
    rw [hold, Option.some_or] at hfind
    rw [correct_iff hfind, UserManager.getUserInfoByUsername, hold]
    constructor
    · rintro h _ heq
      cases heq
      exact h
    · exact fun h => h old rfl

/-- A registration, and a login. -/
def registrationOf (name password : String) : Bytes :=
  ascii "\x7b\"msgType\":102,\"username\":\"" ++ ascii name ++ ascii "\",\"password\":\"" ++
    ascii password ++ ascii "\",\"filePath\":\"\",\"user_sex\":false\x7d"

def loginOf (name password : String) : Bytes :=
  ascii "\x7b\"msgType\":101,\"username\":\"" ++ ascii name ++ ascii "\",\"password\":\"" ++
    ascii password ++ ascii "\"\x7d"

/-- The name `ann` is registered again with another password, which is answered with success, and the
login with that password is not. -/
theorem not_login_after_register :
    init smallDatabase smallAnswers = some (true, smallManager) ∧
      Carries .register (ascii "ann") (ascii "new") (registrationOf "ann" "new") ∧
      Carries .login (ascii "ann") (ascii "new") (loginOf "ann" "new") ∧
      (serve ⟨smallDatabase, smallManager⟩
          [(carrying, registrationOf "ann" "new"), (quiet, loginOf "ann" "new")]).map
        (fun p => p.2.map fun replies => replies.head?.bind Reply.state) =
          some [some 1, some (-1)] := by
  refine ⟨init_smallDatabase, ⟨by decide +kernel, _, rfl, by decide +kernel, by decide +kernel⟩,
    ⟨by decide +kernel, _, rfl, by decide +kernel, by decide +kernel⟩, by decide +kernel⟩

/-- The user `bob` can log in after the registration. -/
theorem login_after_register_bob :
    ∃ s₁ s₂ reply₁ reply₂ replies,
      process ⟨smallDatabase, smallManager⟩ carrying (registrationOf "bob" "pw") =
        some (s₁, [reply₁]) ∧
      process s₁ quiet (loginOf "bob" "pw") = some (s₂, reply₂ :: replies) ∧
        reply₂.state = some 1 := by
  have hserved : ((process ⟨smallDatabase, smallManager⟩ carrying (registrationOf "bob" "pw")).map
      fun p => (p.2.map Reply.state,
        (process p.1 quiet (loginOf "bob" "pw")).map fun q => q.2.length)) =
          some ([some 1], some 4) := by
    decide +kernel
  obtain ⟨⟨s₁, replies₁⟩, hregister, heq⟩ := Option.map_eq_some_iff.1 hserved
  obtain ⟨hstates, hlog⟩ := Prod.mk.inj heq
  obtain ⟨reply₁, rfl, hanswer⟩ := List.map_eq_singleton_iff.1 hstates
  obtain ⟨⟨s₂, _ | ⟨reply₂, replies⟩⟩, hlog, hlength⟩ := Option.map_eq_some_iff.1 hlog
  · cases hlength
  refine ⟨s₁, s₂, reply₁, reply₂, replies, hregister, hlog, ?_⟩
  have hregistration : Carries .register (ascii "bob") (ascii "pw") (registrationOf "bob" "pw") :=
    ⟨by decide +kernel, _, rfl, by decide +kernel, by decide +kernel⟩
  have hlogin : Carries .login (ascii "bob") (ascii "pw") (loginOf "bob" "pw") :=
    ⟨by decide +kernel, _, rfl, by decide +kernel, by decide +kernel⟩
  have hbetween : serve s₁ [] = some (s₁, []) := rfl
  refine (login_after_register_iff hregistration hregister hanswer hbetween hlogin hlog).2
    fun user huser => ?_
  have hunknown : (smallManager.getUserInfoByUsername (ascii "bob") {}).1 = false := by
    decide +kernel
  rw [huser] at hunknown
  cases hunknown

/-! ## What a failed login shows -/

/-- The bytes that are sent. -/
def sent (replies : List Reply) : Bytes :=
  replies.flatMap fun r => Writer.write r.json ++ if r.crlf then ascii "\r\n" else []

/-- Two servers with the same names and passwords, that differ in what else is stored of the users
with one name. -/
structure DifferIn (name : Bytes) (s s' : Server) : Prop where
  users : List.Forall₂ (fun u u' : User => u'.username = u.username ∧ u'.password = u.password ∧
    (u.username ≠ name → u' = u)) s.manager.cachedUsers s'.manager.cachedUsers
  others : s' = { s with manager.cachedUsers := s'.manager.cachedUsers }

/-- The other sex for the users with a name. -/
def otherSex (name : Bytes) (u : User) : User :=
  if u.username = name then { u with sex := !u.sex } else u

theorem username_otherSex (name : Bytes) (u : User) : (otherSex name u).username = u.username := by
  unfold otherSex
  split <;> rfl

/-- The server with the other sex for the users with a name. -/
def withOtherSex (name : Bytes) (s : Server) : Server :=
  { s with manager.cachedUsers := s.manager.cachedUsers.map (otherSex name) }

theorem differIn_withOtherSex (name : Bytes) (s : Server) : DifferIn name s (withOtherSex name s) := by
  constructor
  · rw [withOtherSex, List.forall₂_map_right_iff]
    refine List.forall₂_same.2 fun u _ => ⟨username_otherSex name u, ?_, fun h => if_neg h⟩
    unfold otherSex
    split <;> rfl
  · rfl

theorem find_withOtherSex (name username : Bytes) (s : Server) :
    (withOtherSex name s).manager.cachedUsers.find? (fun u => u.username = username) =
      (s.manager.cachedUsers.find? fun u => u.username = username).map (otherSex name) := by
  rw [withOtherSex, List.find?_map]
  congr 2
  funext u
  simp [username_otherSex]

/-- The lookup finds the same user, with the other sex. -/
theorem getUserInfoByUsername_withOtherSex {name : Bytes} {user : User}
    (h : s.manager.getUserInfoByUsername name {} = (true, user)) :
    (withOtherSex name s).manager.getUserInfoByUsername name {} =
      (true, { user with sex := !user.sex }) := by
  unfold UserManager.getUserInfoByUsername at h ⊢
  rw [find_withOtherSex]
  split at h
  · next u hu =>
    cases h
    have hname : user.username = name := by simpa using List.find?_some hu
    rw [hu, Option.map_some, otherSex, if_pos hname]
  · cases h

/-- A listing does not depend on what is stored of the users but for their names. -/
theorem listing_congr {type : MsgType} {listing listing' : Bytes → Listing} {crlf : Bool}
    (hlisting : ∀ name, listing' name = listing name) {r : Server × List Reply}
    (h : (withRoot s data fun root => do
      let userName ← root.stringMember (ascii "username")
      let json ← listingReply type (listing userName)
      return (s, [{ json, crlf }])) = some r) (t : Server) :
    (withRoot t data fun root => do
      let userName ← root.stringMember (ascii "username")
      let json ← listingReply type (listing' userName)
      return (t, [{ json, crlf }])) = some (t, r.2) := by
  rw [funext hlisting]
  obtain ⟨⟨ok, root⟩, hparse, h⟩ := Option.bind_eq_some_iff.1 h
  rw [withRoot, hparse]
  cases ok with
  | false =>
    cases h
    rfl
  | true =>
    obtain ⟨userName, hname, h⟩ := Option.bind_eq_some_iff.1 h
    obtain ⟨json, hjson, h⟩ := Option.bind_eq_some_iff.1 h
    cases h
    simp [hname, hjson]

/-- The rows of a query are asked for by the name alone. -/
theorem getRowsInfoFromDB_withOtherSex (name : Bytes) (s : Server)
    (rows : Option (List (Bytes × Bytes))) (userName : Bytes) :
    (withOtherSex name s).manager.getRowsInfoFromDB rows userName =
      s.manager.getRowsInfoFromDB rows userName := by
  have hfound : ((withOtherSex name s).manager.getUserInfoByUsername userName {}).1 =
      (s.manager.getUserInfoByUsername userName {}).1 := by
    unfold UserManager.getUserInfoByUsername
    rw [find_withOtherSex]
    cases s.manager.cachedUsers.find? fun u => u.username = userName <;> rfl
  have hrows : ∀ rows, (withOtherSex name s).manager.recordsOfRows rows =
      s.manager.recordsOfRows rows := by
    intro rows
    induction rows with
    | nil => rfl
    | cons row rows ih =>
      rw [UserManager.recordsOfRows, UserManager.recordsOfRows, ih]
      rfl
  unfold UserManager.getRowsInfoFromDB
  rw [hfound]
  cases rows with
  | none => rfl
  | some rows =>
    dsimp only
    rw [hrows]

/-- The first reply to a login, of strings as they are stored. -/
def loginObject (state : ℤ) (username filePath : Bytes) (sex : Bool) : Value :=
  .ofMembers [(ascii "msgType", .int MsgType.login.code), (ascii "responsesState", .int state),
    (ascii "username", .string username), (ascii "user_sex", .bool sex),
    (ascii "filePath", .string filePath), (ascii "filetype", .int 300)]

/-- The other sex gets the same reply but for the sex. -/
theorem loginReply_eq {state : ℤ} {user : User} (h : (loginReply state user).isSome) (sex : Bool) :
    loginReply state { user with sex } =
      some (loginObject state (stored user.username) (stored user.custimface) sex) := by
  obtain ⟨hname, hface⟩ := isSome_loginReply.1 h
  rw [loginReply, Value.ofString, if_pos hname, Value.ofString, if_pos hface]
  rfl

/-- What is written of a login but for the sex. -/
theorem write_loginObject (state : ℤ) (username filePath : Bytes) :
    ∃ before behind, ∀ sex, Writer.write (loginObject state username filePath sex) =
      before ++ ascii (if sex then "true" else "false") ++ behind := by
  have hobject : ∀ sex, loginObject state username filePath sex =
      .object [(ascii "filePath", .string filePath), (ascii "filetype", .int 300),
        (ascii "msgType", .int MsgType.login.code), (ascii "responsesState", .int state),
        (ascii "user_sex", .bool sex), (ascii "username", .string username)] := fun _ => rfl
  have hcomma : ascii "," = [0x2C] := by decide
  have hquoted : ∀ document : Bytes, document ++ Writer.valueToQuotedString username =
      document ++ (0x22 :: Writer.escape username) ++ [0x22] := by
    intro document
    simp [Writer.valueToQuotedString]
  simp only [hobject, Writer.write, Writer.writeValue, Writer.writeMembers, Writer.scalar,
    Option.getD_some, hcomma]
  -- what is written before the sex does not matter
  generalize Writer.writeIndent _ _ ++ Writer.valueToQuotedString (cStr (ascii "user_sex")) =
    document
  refine ⟨document ++ ascii " : ", [0x2C, 0x0A] ++ List.replicate (0 + Writer.indentSize) 0x20 ++
    Writer.valueToQuotedString (cStr (ascii "username")) ++ ascii " : " ++
    (0x22 :: Writer.escape username) ++ [0x22, 0x0A] ++ ascii "\x7d" ++ [0x0A], fun sex => ?_⟩
  rw [Writer.writeIndent_concat (by decide) (by decide), hquoted,
    Writer.writeIndent_concat (by decide) (by decide)]
  simp only [List.append_assoc, List.replicate_zero, List.nil_append]

/-- The replies to a login. -/
theorem onLoginResponse_eq_some_iff {name password : Bytes}
    (hparse : Reader.parse data = some (true, root))
    (hname : root.stringMember (ascii "username") = some name)
    (hpassword : root.stringMember (ascii "password") = some password) :
    onLoginResponse s e data = some (s', replies) ↔
      s' = s ∧ ∃ json uName dynamic history collect,
        loginReply (loginState s.manager name password).1 (loginState s.manager name password).2 =
          some json ∧
        Value.ofString (loginState s.manager name password).2.username = some uName ∧
        onGetDynamicInfoResponse s (Writer.write (.object [(ascii "username", uName)])) =
          some (s, dynamic) ∧
        onGetHistoryInfoResponse s e (Writer.write (.object [(ascii "username", uName)])) =
          some (s, history) ∧
        onGetCollectInfoResponse s e (Writer.write (.object [(ascii "username", uName)])) =
          some (s, collect) ∧
        replies = { json } :: (dynamic ++ history ++ collect) := by
  simp only [onLoginResponse, withRoot, hparse, hname, hpassword, Option.bind_eq_bind,
    Option.bind_some, if_true]
  constructor
  · intro h
    obtain ⟨json, hjson, h⟩ := Option.bind_eq_some_iff.1 h
    obtain ⟨uName, huName, h⟩ := Option.bind_eq_some_iff.1 h
    obtain ⟨⟨s₁, dynamic⟩, hdynamic, h⟩ := Option.bind_eq_some_iff.1 h
    obtain ⟨⟨s₂, history⟩, hhistory, h⟩ := Option.bind_eq_some_iff.1 h
    obtain ⟨⟨s₃, collect⟩, hcollect, h⟩ := Option.bind_eq_some_iff.1 h
    cases h
    obtain ⟨rfl, rfl, rfl⟩ := server_of_listings hdynamic hhistory hcollect
    exact ⟨rfl, json, uName, dynamic, history, collect, hjson, huName, hdynamic, hhistory, hcollect,
      rfl⟩
  · rintro ⟨rfl, json, uName, dynamic, history, collect, hjson, huName, hdynamic, hhistory, hcollect,
      rfl⟩
    simp [hjson, huName, hdynamic, hhistory, hcollect]

/-- **A failed login shows the sex of the user.** It is answered with the state -1, and the bytes that
are sent depend on what is stored of the user besides the name and the password. -/
theorem login_reveals {name password : Bytes} {user : User}
    (hparse : Reader.parse data = some (true, root))
    (hname : root.stringMember (ascii "username") = some name)
    (hpassword : root.stringMember (ascii "password") = some password)
    (hlookup : s.manager.getUserInfoByUsername name {} = (true, user))
    (hwrong : user.password ≠ password) (h : onLoginResponse s e data = some (s', replies)) :
    (∃ reply rest, replies = reply :: rest ∧ reply.state = some (-1)) ∧
      ¬ ∀ t t' replies', DifferIn name s t → onLoginResponse t e data = some (t', replies') →
        sent replies' = sent replies := by
  have hnot : ¬ (name = user.username ∧ password = user.password) := fun h => hwrong h.2.symm
  have hstate : loginState s.manager name password = (-1, user) := by
    simp [loginState, hlookup, hnot]
  have hstate' : loginState (withOtherSex name s).manager name password =
      (-1, { user with sex := !user.sex }) := by
    simp [loginState, getUserInfoByUsername_withOtherSex hlookup, hnot]
  obtain ⟨-, json, uName, dynamic, history, collect, hjson, huName, hdynamic, hhistory, hcollect,
    rfl⟩ := (onLoginResponse_eq_some_iff hparse hname hpassword).1 h
  rw [hstate] at hjson huName
  refine ⟨⟨_, _, rfl, state_loginReply hjson (by simp)⟩, fun hsame => ?_⟩
  have hreply := loginReply_eq (by rw [hjson]; rfl : (loginReply (-1) user).isSome)
  obtain rfl : json = loginObject (-1) (stored user.username) (stored user.custimface) user.sex :=
    Option.some_inj.1 (hjson.symm.trans (hreply user.sex))
  -- the user with the other sex gets the same listings
  have hother : onLoginResponse (withOtherSex name s) e data = some (withOtherSex name s,
      { json := loginObject (-1) (stored user.username) (stored user.custimface) (!user.sex) } ::
        (dynamic ++ history ++ collect)) := by
    refine (onLoginResponse_eq_some_iff hparse hname hpassword).2
      ⟨rfl, _, uName, dynamic, history, collect, ?_, ?_, ?_, ?_, ?_, rfl⟩
    · rw [hstate']
      exact hreply _
    · rw [hstate']
      exact huName
    · exact listing_congr (fun _ => rfl) hdynamic _
    · exact listing_congr (fun userName => congrArg Prod.snd
        (getRowsInfoFromDB_withOtherSex name s e.historyRows userName)) hhistory _
    · exact listing_congr (fun userName => congrArg Prod.snd
        (getRowsInfoFromDB_withOtherSex name s e.collectRows userName)) hcollect _
  obtain ⟨before, behind, hwrite⟩ :=
    write_loginObject (-1) (stored user.username) (stored user.custimface)
  have hlength := congrArg List.length (hsame _ _ _ (differIn_withOtherSex name s) hother)
  have htrue : (ascii "true").length = 4 := rfl
  have hfalse : (ascii "false").length = 5 := rfl
  simp only [sent, List.flatMap_cons, hwrite, List.length_append] at hlength
  cases hsex : user.sex <;> simp [hsex, htrue, hfalse] at hlength

/-- Two servers that differ in the sex of `ann` send different bytes to a login with a wrong
password. -/
theorem login_reveals_sex :
    init smallDatabase smallAnswers = some (true, smallManager) ∧
      (onLoginResponse ⟨smallDatabase, smallManager⟩ quiet (loginOf "ann" "bad")).map
        (fun r => r.2.head?.bind Reply.state) = some (some (-1)) ∧
      ∃ t, DifferIn (ascii "ann") ⟨smallDatabase, smallManager⟩ t ∧
        (onLoginResponse ⟨smallDatabase, smallManager⟩ quiet (loginOf "ann" "bad")).map
            (fun r => sent r.2) ≠
          (onLoginResponse t quiet (loginOf "ann" "bad")).map fun r => sent r.2 :=
  ⟨init_smallDatabase, by decide +kernel, _, differIn_withOtherSex _ _, by decide +kernel⟩

/-- A login of `ann` with a wrong password. -/
theorem login_reveals_ann :
    ∃ s' replies, onLoginResponse ⟨smallDatabase, smallManager⟩ quiet (loginOf "ann" "bad") =
        some (s', replies) ∧
      ¬ ∀ t t' replies', DifferIn (ascii "ann") ⟨smallDatabase, smallManager⟩ t →
        onLoginResponse t quiet (loginOf "ann" "bad") = some (t', replies') →
          sent replies' = sent replies := by
  have hanswered : (onLoginResponse ⟨smallDatabase, smallManager⟩ quiet (loginOf "ann" "bad")).isSome :=
    by decide +kernel
  obtain ⟨⟨s', replies⟩, h⟩ := Option.isSome_iff_exists.1 hanswered
  have hparse : Reader.parse (loginOf "ann" "bad") = some (true, .ofMembers
      [(ascii "msgType", .int 101), (ascii "username", .string (ascii "ann")),
        (ascii "password", .string (ascii "bad"))]) := rfl
  have hfound : (smallManager.getUserInfoByUsername (ascii "ann") {}).1 = true := by
    decide +kernel
  have hwrong : (smallManager.getUserInfoByUsername (ascii "ann") {}).2.password ≠ ascii "bad" := by
    decide +kernel
  exact ⟨s', replies, h, (login_reveals hparse (by decide +kernel) (by decide +kernel)
    (Prod.ext hfound rfl) hwrong h).2⟩

end ClientSession

end GraduationServer
