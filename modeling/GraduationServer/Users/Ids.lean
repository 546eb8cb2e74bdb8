import GraduationServer.Users.Loading
import Mathlib.Data.List.Nodup

/-!
# User ids

`AddUser` numbers the users it adds by a counter, which a failed statement uses up as well. `Init` leaves
the id of its constructor, 0, in every user that it loads, and the counter at 0. So the users have
different ids, as long as the counter has not gone round, exactly when at most one has been loaded
(`uniqueIds_of_loaded`).
-/

namespace GraduationServer

/-! ## Loaded users -/

/-- The number of users that `Init` loads. -/
def loadedUsers {db : Database} (answers : Answers db) : ℕ :=
  match answers.user with
  | none => 0
  | some selected => selected.rows.length

/-- What every list that is loaded keeps is so at the end of `Init`. -/
theorem loadThen_keeps {P : UserManager → Prop} {α : Type} {loaded : Option (Bool × α)}
    {store : α → UserManager} {rest : UserManager → Option (Bool × UserManager)}
    {r : Bool × UserManager} (hstore : ∀ b l, loaded = some (b, l) → P (store l))
    (hrest : ∀ m r, P m → rest m = some r → P r.2) (h : loadThen loaded store rest = some r) :
    P r.2 := by
  unfold loadThen at h
  split at h
  · cases h
  · next l =>
    cases h
    exact hstore false l rfl
  · next l => exact hrest _ r (hstore true l rfl) h

theorem userid_of_readUser {value : Bytes → Option Bytes} {u : User} (h : readUser value = some u) :
    u.userid = 0 := by
  simp only [readUser, Option.bind_eq_bind, Option.bind_eq_some_iff] at h
  obtain ⟨uID, -, sex, -, custimface, -, password, -, username, -, h⟩ := h
  cases h
  rfl

/-- The ids of the users that are loaded. -/
theorem ids_of_loadUserFromDB {db : Database} {answers : Answers db} {b : Bool} {l : List User}
    (h : loadUserFromDB answers.user = some (b, l)) :
    l.map User.userid = List.replicate (loadedUsers answers) 0 := by
  unfold loadUserFromDB at h
  unfold loadedUsers
  cases hanswer : answers.user with
  | none =>
    rw [hanswer] at h
    cases h
    rfl
  | some selected =>
    rw [hanswer] at h
    by_cases hrows : selected.rows = []
    · rw [loadInfo_empty rfl hrows] at h
      cases h
    · rw [loadInfo_eq hrows] at h
      obtain ⟨users, hread, h⟩ := Option.map_eq_some_iff.1 h
      cases h
      have hids := map_eq_of_mapM (g := User.userid) (k := fun _ => 0)
        (fun _ _ => userid_of_readUser) hread
      rw [hids, List.map_const']

/-- Every user has the id 0, and so has the counter. -/
structure Restored {db : Database} (answers : Answers db) (m : UserManager) : Prop where
  ids : m.cachedUsers.map User.userid = List.replicate (loadedUsers answers) 0
  counter : m.baseUserID = 0

/-- The manager is so after `Init`: what is loaded behind the users leaves them alone. -/
theorem restored_of_init {db : Database} {answers : Answers db} {ok : Bool} {m : UserManager}
    (h : init db answers = some (ok, m)) : Restored answers m := by
  refine loadThen_keeps (fun b l hl => ⟨ids_of_loadUserFromDB hl, rfl⟩) ?_ h
  refine fun m r hm => loadThen_keeps (P := Restored answers) (fun _ _ _ => ⟨hm.ids, hm.counter⟩) ?_
  refine fun m r hm => loadThen_keeps (P := Restored answers) (fun _ _ _ => ⟨hm.ids, hm.counter⟩) ?_
  refine fun m r hm => loadThen_keeps (P := Restored answers) (fun _ _ _ => ⟨hm.ids, hm.counter⟩) ?_
  refine fun m r hm => loadThen_keeps (P := Restored answers) (fun _ _ _ => ⟨hm.ids, hm.counter⟩) ?_
  refine fun m r hm => loadThen_keeps (P := Restored answers) (fun _ _ _ => ⟨hm.ids, hm.counter⟩) ?_
  rintro m r hm ⟨⟩
  exact hm

/-! ## Added users -/

/-- No two users have the same id. -/
def UniqueIds (s : Server) : Prop := (s.manager.cachedUsers.map User.userid).Nodup

namespace Server

/-- The server after some calls of `AddUser`. -/
def addUsers (s : Server) (calls : List (User × Attempt)) : Server :=
  calls.foldl (fun s c => (s.addUser c.1 c.2).2) s

/-- The users have the numbers of the calls that added them, behind those that were loaded, and the
counter has the number of calls. -/
structure Numbered (loaded k : ℕ) (s : Server) (numbers : List ℕ) : Prop where
  ids : s.manager.cachedUsers.map User.userid =
    (List.replicate loaded 0 ++ numbers).map Int32.ofNat
  counter : s.manager.baseUserID = Int32.ofNat k
  nodup : numbers.Nodup
  range : ∀ j ∈ numbers, 0 < j ∧ j ≤ k

variable {loaded k : ℕ} {s : Server} {numbers : List ℕ}

/-- **A call takes the next number**, whether it adds a user or not. -/
theorem Numbered.addUser (h : Numbered loaded k s numbers) (user : User) (a : Attempt) :
    ∃ numbers', Numbered loaded (k + 1) (s.addUser user a).2 numbers' := by
  have hcounter : s.manager.baseUserID + 1 = Int32.ofNat (k + 1) := by
    rw [h.counter, Int32.ofNat_add]
    rfl
  unfold Server.addUser
  dsimp only
  rcases write_cases _ (.addUser user) a _ with ⟨-, hwrite⟩ | ⟨db, -, hwrite⟩
  · rw [hwrite]
    exact ⟨numbers, h.ids, hcounter, h.nodup, fun j hj =>
      ⟨(h.range j hj).1, Nat.le_succ_of_le (h.range j hj).2⟩⟩
  · rw [hwrite]
    refine ⟨numbers ++ [k + 1], ?_, hcounter, ?_, ?_⟩
    · dsimp only
      rw [List.map_append, h.ids, hcounter]
      simp only [List.map_append, List.map_cons, List.map_nil, List.append_assoc]
    · refine List.nodup_append.2 ⟨h.nodup, List.nodup_singleton _, fun j hj i hi => ?_⟩
      rw [List.mem_singleton.1 hi]
      exact Nat.ne_of_lt (Nat.lt_succ_of_le (h.range j hj).2)
    · intro j hj
      rcases List.mem_append.1 hj with hj | hj
      · exact ⟨(h.range j hj).1, Nat.le_succ_of_le (h.range j hj).2⟩
      · rw [List.mem_singleton.1 hj]
        omega

/-- **The numbers after some calls**, by induction. -/
theorem Numbered.addUsers (h : Numbered loaded k s numbers) (calls : List (User × Attempt)) :
    ∃ numbers', Numbered loaded (k + calls.length) (s.addUsers calls) numbers' := by
  induction calls generalizing k s numbers with
  | nil => exact ⟨numbers, h⟩
  | cons c calls ih =>
    obtain ⟨numbers', h'⟩ := h.addUser c.1 c.2
    obtain ⟨numbers'', h''⟩ := ih h'
    rw [List.length_cons, Nat.add_comm calls.length 1, ← Nat.add_assoc]
    exact ⟨numbers'', h''⟩

theorem ofNat_injOn {i j : ℕ} (hi : i < 2 ^ 32) (hj : j < 2 ^ 32)
    (h : Int32.ofNat i = Int32.ofNat j) : i = j := by
  have hbits : i % 2 ^ 32 = j % 2 ^ 32 := congrArg (fun n : Int32 => n.toBitVec.toNat) h
  rwa [Nat.mod_eq_of_lt hi, Nat.mod_eq_of_lt hj] at hbits

/-- Users that are numbered so have different ids before the counter goes round. -/
theorem Numbered.uniqueIds (h : Numbered loaded k s numbers) (hloaded : loaded ≤ 1)
    (hk : k < 2 ^ 32) : UniqueIds s := by
  have hrange : ∀ j ∈ List.replicate loaded 0 ++ numbers, j < 2 ^ 32 := by
    intro j hj
    rcases List.mem_append.1 hj with hj | hj
    · rw [List.eq_of_mem_replicate hj]
      decide
    · exact (h.range j hj).2.trans_lt hk
  rw [UniqueIds, h.ids]
  refine List.Nodup.map_on (fun i hi j hj => ofNat_injOn (hrange i hi) (hrange j hj)) ?_
  refine List.nodup_append.2 ⟨List.nodup_replicate.2 hloaded, h.nodup, fun i hi j hj => ?_⟩
  rw [List.eq_of_mem_replicate hi]
  exact (h.range j hj).1.ne

end Server

theorem numbered_of_init {db : Database} {answers : Answers db} {ok : Bool} {m : UserManager}
    (h : init db answers = some (ok, m)) :
    Server.Numbered (loadedUsers answers) 0 ⟨db, m⟩ [] := by
  obtain ⟨hids, hcounter⟩ := restored_of_init h
  refine ⟨?_, hcounter, List.nodup_nil, nofun⟩
  rw [List.append_nil, List.map_replicate]
  exact hids

/-- **The users have different ids in every state after `Init` when at most one of them was loaded** and
the counter has not gone round; when more were loaded, they have not. -/
theorem uniqueIds_of_loaded {db : Database} {answers : Answers db} {ok : Bool} {m : UserManager}
    (h : init db answers = some (ok, m)) (calls : List (User × Attempt)) :
    (loadedUsers answers ≤ 1 ∧ calls.length < 2 ^ 32 →
        ∀ n, UniqueIds (Server.addUsers ⟨db, m⟩ (calls.take n))) ∧
      ((∀ n, UniqueIds (Server.addUsers ⟨db, m⟩ (calls.take n))) → loadedUsers answers ≤ 1) := by
  have hnumbered := numbered_of_init h
  constructor
  · rintro ⟨hloaded, hcalls⟩ n
    obtain ⟨numbers, hafter⟩ := hnumbered.addUsers (calls.take n)
    refine hafter.uniqueIds hloaded ?_
    rw [List.length_take]
    omega
  · intro hunique
    have hfirst : UniqueIds ⟨db, m⟩ := hunique 0
    rw [UniqueIds, (restored_of_init h).ids] at hfirst
    exact List.nodup_replicate.1 hfirst

/-! ## Two users -/

/-- `smallDatabase` with a second user. -/
def pairDatabase : Database :=
  { smallDatabase with
    user :=
      { smallDatabase.user with
        rows := [[some (ascii "7"), some (ascii "ann"), some (ascii "pw"), none, some [1]],
          [some (ascii "8"), some (ascii "bob"), some (ascii "pw"), none, some [0]]]
        wide := by decide
        strict := by decide +kernel } }

def pairAnswers : Answers pairDatabase where
  user := some ⟨_, .rfl⟩
  videoData := some ⟨_, .rfl⟩
  audioData := some ⟨_, .rfl⟩
  textData := some ⟨_, .rfl⟩
  browseRecords := some ⟨_, .rfl⟩
  assetsCollect := some ⟨_, .rfl⟩

/-- Both users have the id 0 when they have been loaded. -/
theorem not_uniqueIds :
    ¬ ∀ (db : Database) (answers : Answers db) (ok : Bool) (m : UserManager),
      init db answers = some (ok, m) → ∀ calls, UniqueIds (Server.addUsers ⟨db, m⟩ calls) := by
  intro h
  have hinit : (init pairDatabase pairAnswers).map (fun r => (r.1, r.2.cachedUsers.map User.userid)) =
      some (true, [0, 0]) := by
    decide +kernel
  obtain ⟨⟨ok, m⟩, hm, heq⟩ := Option.map_eq_some_iff.1 hinit
  have hids : m.cachedUsers.map User.userid = [0, 0] := congrArg Prod.snd heq
  have hunique : (m.cachedUsers.map User.userid).Nodup := h pairDatabase pairAnswers ok m hm []
  rw [hids] at hunique
  exact absurd hunique (by decide)

/-- The user `bob` is added. -/
def bobCalls : List (User × Attempt) :=
  [({ uID := ascii "u1", username := ascii "bob" }, ⟨true, [], fun _ => none⟩)]

/-- The user of `smallDatabase` and the one who is added have different ids. -/
theorem uniqueIds_bob : UniqueIds (Server.addUsers ⟨smallDatabase, smallManager⟩ bobCalls) :=
  (uniqueIds_of_loaded init_smallDatabase bobCalls).1 ⟨by decide, by decide⟩ 1

end GraduationServer
