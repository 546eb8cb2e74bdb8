import GraduationServer.Users.Mirror

/-!
# Calls that fail

Each of the functions that write changes the copies behind the statement, when that has succeeded, so a
call that fails has changed nothing (`call_of_false`). `AddUser` is the exception: it has taken the next
id before.
-/

namespace GraduationServer

namespace Server

/-- The manager a call leaves behind when its statement fails. -/
def afterFailure (s : Server) : Write → UserManager
  | .addUser _ => { s.manager with baseUserID := s.manager.baseUserID + 1 }
  | _ => s.manager

/-- The call leaves the lists and the counter as they are if it returns `false`. -/
def Atomic (s : Server) (w : Write) (a : Attempt) : Prop :=
  (s.call w a).1 = false → (s.call w a).2.manager = s.manager

theorem write_of_false {s : Server} {w : Write} {a : Attempt} {change : UserManager → UserManager}
    (h : (s.write w a change).1 = false) :
    excute s.db w.sql a = none ∧ (s.write w a change).2 = s := by
  rcases s.write_cases w a change with ⟨hnone, hwrite⟩ | ⟨db, -, hwrite⟩
  · rw [hwrite]
    exact ⟨hnone, rfl⟩
  · rw [hwrite] at h
    cases h

/-- **What a call that fails leaves behind:** the database as it is, and the manager too, but for the
counter of `AddUser`. -/
theorem call_of_false {s : Server} {w : Write} {a : Attempt} (h : (s.call w a).1 = false) :
    (s.call w a).2 = ⟨s.db, s.afterFailure w⟩ := by
  cases w with
  | addUser user => exact (write_of_false h).2
  | addWordInfoFromDB info => exact (write_of_false h).2
  | addVideoInfoFromDB info => exact (write_of_false h).2
  | addAudioInfoFromDB info => exact (write_of_false h).2
  | addBrowseInfoFromDB bId bUID bAssetsType bAssetsTitle => exact (write_of_false h).2
  | addCollectInfoFromDB cId cUID cAssetsType cAssetsTitle => exact (write_of_false h).2
  | removeOneCollectInfo uID assetsTitle assetsType =>
    simp only [call, removeOneCollectInfo] at h ⊢
    split
    · next hfound =>
      rw [if_pos hfound] at h
      exact (write_of_false h).2
    · rfl

theorem add_one_ne (n : Int32) : n + 1 ≠ n := by
  intro h
  have hbits := congrArg Int32.toBitVec h
  simp at hbits

/-- Without the statement `AddUser` is not atomic. -/
theorem not_atomic_addUser {s : Server} {user : User} {a : Attempt}
    (h : excute s.db (Write.addUser user).sql a = none) : ¬ s.Atomic (.addUser user) a := by
  intro hatomic
  have hfalse : (s.call (.addUser user) a).1 = false := by
    simp only [call, addUser, write, h]
  have hmanager := hatomic hfalse
  rw [call_of_false hfalse] at hmanager
  exact add_one_ne _ (congrArg UserManager.baseUserID hmanager)

/-- **Which calls are atomic:** all those of the other functions, and those of `AddUser` whose statement
is carried out. -/
theorem atomic_iff (s : Server) (w : Write) (a : Attempt) :
    s.Atomic w a ↔ ∀ user, w = .addUser user → (excute s.db w.sql a).isSome := by
  constructor
  · rintro hatomic user rfl
    by_contra hnone
    exact not_atomic_addUser (Option.not_isSome_iff_eq_none.1 hnone) hatomic
  · intro hdone hfalse
    rw [call_of_false hfalse]
    cases w with
    | addUser user =>
      obtain ⟨hnone, -⟩ := write_of_false hfalse
      have hsome := hdone user rfl
      rw [hnone] at hsome
      cases hsome
    | _ => rfl

/-- A registration whose statement MySQL does not carry out uses up an id. -/
theorem not_forall_atomic : ¬ ∀ (s : Server) (w : Write) (a : Attempt), s.Atomic w a := fun h =>
  @not_atomic_addUser ⟨smallDatabase, smallManager⟩ { username := ascii "bob" }
    ⟨false, [], fun _ => none⟩ rfl (h _ _ _)

end Server

end GraduationServer
