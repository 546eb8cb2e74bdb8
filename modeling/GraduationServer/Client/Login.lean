import GraduationServer.Client.Session
import GraduationServer.Users.Mirror

/-!
# Login

`OnLoginResponse` decides in two steps. It looks the user up, which leaves the user with the empty
strings of its constructor when there is none, and then compares names and passwords without asking
whether there was one. So an empty name with an empty password is accepted although nobody has that
name, and this is the only wrong decision (`login_correct_iff`).
-/

namespace GraduationServer

open Json

/-- The state in a reply. -/
def Reply.state (reply : Reply) : Option ℤ := reply.json.intMember (ascii "responsesState")

namespace ClientSession

/-- The user that is looked up exists and has the given name and password. -/
def Correct (m : UserManager) (userName password : Bytes) : Prop :=
  ∃ user, m.getUserInfoByUsername userName {} = (true, user) ∧ user.username = userName ∧
    user.password = password

/-- Nobody has the name. -/
def Unknown (m : UserManager) (userName : Bytes) : Prop :=
  ∀ user ∈ m.cachedUsers, user.username ≠ userName

/-- The login that is accepted wrongly: without name and password, and nobody has the empty name. -/
def EmptyLogin (m : UserManager) (userName password : Bytes) : Prop :=
  userName = [] ∧ password = [] ∧ Unknown m userName

/-- The lookup fails for the unknown names. -/
theorem unknown_iff {m : UserManager} {userName : Bytes} :
    Unknown m userName ↔ (m.getUserInfoByUsername userName {}).1 = false := by
  unfold Unknown UserManager.getUserInfoByUsername
  constructor
  · intro h
    rw [List.find?_eq_none.2 fun user huser => by simpa using h user huser]
  · intro h
    split at h
    · cases h
    · next hnone => exact fun user huser => by simpa using List.find?_eq_none.1 hnone user huser

/-- The lookup leaves the given user alone when nobody has the name. -/
theorem getUserInfoByUsername_of_unknown {m : UserManager} {userName : Bytes}
    (h : Unknown m userName) (user : User) :
    m.getUserInfoByUsername userName user = (false, user) := by
  unfold UserManager.getUserInfoByUsername
  rw [List.find?_eq_none.2 fun u hu => by simpa using h u hu]

theorem loginState_eq_one_iff (m : UserManager) (userName password : Bytes) :
    (loginState m userName password).1 = 1 ↔
      Correct m userName password ∨ EmptyLogin m userName password := by
  cases hlookup : m.getUserInfoByUsername userName {} with
  | mk found user =>
    cases found with
    | true =>
      have hknown : ¬ EmptyLogin m userName password := fun h => by
        simp [EmptyLogin, unknown_iff, hlookup] at h
      simp only [loginState, hlookup, Correct, Prod.mk.injEq, true_and, hknown, or_false]
      constructor
      · intro h
        by_cases hmatch : userName = user.username ∧ password = user.password
        · exact ⟨user, rfl, hmatch.1.symm, hmatch.2.symm⟩
        · rw [if_neg hmatch] at h
          cases h
      · rintro ⟨_, rfl, hname, hpassword⟩
        rw [if_pos ⟨hname.symm, hpassword.symm⟩]
    | false =>
      have hunknown : Unknown m userName := by simp [unknown_iff, hlookup]
      obtain rfl : user = {} := by
        simpa [hlookup] using getUserInfoByUsername_of_unknown hunknown {}
      have hcorrect : ¬ Correct m userName password := by simp [Correct, hlookup]
      simp only [loginState, hlookup, EmptyLogin, hunknown, and_true, hcorrect, false_or]
      constructor
      · intro h
        by_contra hne
        rw [if_neg hne] at h
        cases h
      · intro h
        rw [if_pos h]

/-- The reply carries the decision. -/
theorem state_loginReply {state : ℤ} {user : User} {json : Value}
    (h : loginReply state user = some json) (hstate : state = 1 ∨ state = 0 ∨ state = -1) :
    ({ json } : Reply).state = some state := by
  simp only [loginReply, Option.bind_eq_bind, Option.bind_eq_some_iff] at h
  obtain ⟨username, -, filePath, -, h⟩ := h
  cases h
  have hmember : ∀ username filePath sex : Value, (Value.ofMembers
      [(ascii "msgType", .int MsgType.login.code), (ascii "responsesState", .int state),
        (ascii "username", username), (ascii "user_sex", sex), (ascii "filePath", filePath),
        (ascii "filetype", .int 300)]).intMember (ascii "responsesState") =
          Value.asInt (.int state) := fun _ _ _ => rfl
  rw [Reply.state, hmember]
  rcases hstate with rfl | rfl | rfl <;> decide

theorem loginState_range (m : UserManager) (userName password : Bytes) :
    (loginState m userName password).1 = 1 ∨ (loginState m userName password).1 = 0 ∨
      (loginState m userName password).1 = -1 := by
  simp only [loginState]
  split_ifs <;> simp

/-- The first reply to an accepted login message holds the decision on its name and password. -/
theorem state_of_onLoginResponse {s s' : Server} {e : Surroundings} {data userName password : Bytes}
    {root : Value} {reply : Reply} {replies : List Reply}
    (hparse : Reader.parse data = some (true, root))
    (hname : root.stringMember (ascii "username") = some userName)
    (hpassword : root.stringMember (ascii "password") = some password)
    (hreply : onLoginResponse s e data = some (s', reply :: replies)) :
    reply.state = some (loginState s.manager userName password).1 := by
  simp only [onLoginResponse, withRoot, hparse, hname, hpassword, Option.bind_eq_bind,
    Option.bind_some, if_true, Option.bind_eq_some_iff] at hreply
  obtain ⟨json, hjson, uName, -, dynamic, -, history, -, collect, -, h⟩ := hreply
  cases h
  exact state_loginReply hjson (loginState_range ..)

/-- **The reply is right about a login exactly when it is not the empty login of an unknown user.** -/
theorem login_correct_iff {s s' : Server} {e : Surroundings} {data userName password : Bytes}
    {root : Value} {reply : Reply} {replies : List Reply}
    (hparse : Reader.parse data = some (true, root))
    (hname : root.stringMember (ascii "username") = some userName)
    (hpassword : root.stringMember (ascii "password") = some password)
    (hreply : onLoginResponse s e data = some (s', reply :: replies)) :
    (reply.state = some 1 ↔ Correct s.manager userName password) ↔
      ¬ EmptyLogin s.manager userName password := by
  have hexclusive : EmptyLogin s.manager userName password →
      ¬ Correct s.manager userName password := by
    rintro ⟨-, -, hunknown⟩ ⟨user, hlookup, -⟩
    rw [unknown_iff, hlookup] at hunknown
    cases hunknown
  rw [state_of_onLoginResponse hparse hname hpassword hreply, Option.some.injEq,
    loginState_eq_one_iff]
  tauto

/-- Nothing from outside. -/
def quiet : Surroundings := ⟨⟨false, [], fun _ => none⟩, [], none, none⟩

/-- A login without name and password. -/
def emptyLogin : Bytes := ascii "\x7b\"msgType\":101,\"username\":\"\",\"password\":\"\"\x7d"

/-- The login of the user of `smallDatabase`. -/
def annLogin : Bytes := ascii "\x7b\"msgType\":101,\"username\":\"ann\",\"password\":\"pw\"\x7d"

/-- The empty login is accepted by the server of `smallDatabase`, whose only user is `ann`. -/
theorem login_empty_accepted :
    init smallDatabase smallAnswers = some (true, smallManager) ∧
      (onLoginResponse ⟨smallDatabase, smallManager⟩ quiet emptyLogin).map
          (fun p => p.2.head?.bind Reply.state) = some (some 1) ∧
      ¬ Correct smallManager [] [] := by
  refine ⟨init_smallDatabase, by decide +kernel, ?_⟩
  rintro ⟨user, h, -⟩
  have hunknown : (smallManager.getUserInfoByUsername [] {}).1 = false := by decide +kernel
  rw [h] at hunknown
  cases hunknown

/-- The login of `ann` is answered rightly. -/
theorem login_correct_ann :
    ∃ s' reply replies,
      onLoginResponse ⟨smallDatabase, smallManager⟩ quiet annLogin = some (s', reply :: replies) ∧
      (reply.state = some 1 ↔ Correct smallManager (ascii "ann") (ascii "pw")) := by
  have hanswered : (onLoginResponse ⟨smallDatabase, smallManager⟩ quiet annLogin).map
      (fun p => p.2.length) = some 4 := by
    decide +kernel
  obtain ⟨⟨s', _ | ⟨reply, replies⟩⟩, h, hlength⟩ := Option.map_eq_some_iff.1 hanswered
  · cases hlength
  refine ⟨s', reply, replies, h, ?_⟩
  have hparse : Reader.parse annLogin = some (true, .ofMembers [(ascii "msgType", .int 101),
      (ascii "username", .string (ascii "ann")), (ascii "password", .string (ascii "pw"))]) := rfl
  refine (login_correct_iff hparse (by decide +kernel) (by decide +kernel) h).2 ?_
  rintro ⟨hname, -⟩
  exact absurd hname (by decide)

end ClientSession

end GraduationServer
