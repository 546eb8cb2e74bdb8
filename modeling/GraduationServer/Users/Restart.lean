import GraduationServer.Users.Loading

/-!
# Users after a restart

No statement of the server removes or changes a user, so the row of a registered user is still in
`tab_user` when the server is started again. The four strings are read back as they were, but not the
sex: MySQL returns the value of a `BIT(1)` column as one byte 0 or 1, and `Field::toBool` passes it to
`atoi`, which finds a digit in neither. Every user is loaded with the sex `false`
(`survives_restart_iff`).
-/

namespace GraduationServer

open QuotedText

/-! ## The table of users only grows -/

section Grows

variable {notNull : List Bytes} {t t' t'' : Table notNull}

/-- A table has the columns of another one and at least its rows. -/
def Table.Grows (t t' : Table notNull) : Prop := t'.columns = t.columns ∧ t.rows ⊆ t'.rows

theorem Table.Grows.refl (t : Table notNull) : t.Grows t := ⟨rfl, List.Subset.refl _⟩

theorem Table.Grows.trans (h : t.Grows t') (h' : t'.Grows t'') : t.Grows t'' :=
  ⟨h'.1.trans h.1, List.Subset.trans h.2 h'.2⟩

theorem Table.grows_insertInto {names : List Bytes} {values : List (Option Bytes)}
    {others : Bytes → Option Bytes} (h : t.insertInto names values others = some t') :
    t.Grows t' ∧ t.newRow names values others ∈ t'.rows := by
  obtain ⟨-, hcolumns, hrows⟩ := of_insertInto h
  rw [Grows, hrows]
  exact ⟨⟨hcolumns, List.subset_append_left _ _⟩, List.mem_append_right _ List.mem_cons_self⟩

end Grows

theorem user_of_effect {shape : Shape} {values : List Bytes} {a : Attempt} {db db' : Database}
    (h : shape.effect values a db = some db') : db.user.Grows db'.user := by
  cases shape with
  | addUser sex =>
    obtain ⟨t, ht, rfl⟩ := Option.map_eq_some_iff.1 h
    exact (Table.grows_insertInto ht).1
  | _ =>
    obtain ⟨t, -, rfl⟩ := Option.map_eq_some_iff.1 h
    exact .refl _

theorem user_of_excute {sql : Bytes} {a : Attempt} {db db' : Database}
    (h : excute db sql a = some db') : db.user.Grows db'.user := by
  unfold excute at h
  split at h
  · obtain ⟨r, -, h⟩ := Option.bind_eq_some_iff.1 h
    obtain ⟨shape, -, h⟩ := Option.bind_eq_some_iff.1 h
    exact user_of_effect h
  · cases h

namespace Server

theorem user_of_write (s : Server) (w : Write) (a : Attempt) (change : UserManager → UserManager) :
    s.db.user.Grows (s.write w a change).2.db.user := by
  rcases s.write_cases w a change with ⟨-, hwrite⟩ | ⟨db, hexcute, hwrite⟩
  · rw [hwrite]
    exact .refl _
  · rw [hwrite]
    exact user_of_excute hexcute

/-- No call takes a row from the table of users. -/
theorem user_of_call (s : Server) (w : Write) (a : Attempt) :
    s.db.user.Grows (s.call w a).2.db.user := by
  cases w with
  | addUser user => exact user_of_write { s with manager.baseUserID := _ } _ a _
  | removeOneCollectInfo uID assetsTitle assetsType =>
    simp only [call, removeOneCollectInfo]
    split
    · exact user_of_write s _ a _
    · exact .refl _
  | _ => exact user_of_write s _ a _

/-- The server after some calls. -/
def afterCalls (s : Server) (calls : List (Write × Attempt)) : Server :=
  calls.foldl (fun s c => (s.call c.1 c.2).2) s

theorem user_of_afterCalls (s : Server) (calls : List (Write × Attempt)) :
    s.db.user.Grows (s.afterCalls calls).db.user := by
  induction calls generalizing s with
  | nil => exact .refl _
  | cons c calls ih => exact (user_of_call s c.1 c.2).trans (ih _)

end Server

/-! ## The sex of a user -/

/-- Every value in a column is one byte, 0 or 1: what MySQL returns of a column of type `BIT(1)`. -/
def BitColumn {notNull : List Bytes} (t : Table notNull) (name : Bytes) : Prop :=
  ∀ row ∈ t.rows, cell t.columns row name = some (some [0]) ∨ cell t.columns row name = some (some [1])

/-- `atoi` finds no digit in such a byte. -/
theorem toBool_bit : toBool [0] = false ∧ toBool [1] = false := by
  decide

/-- A user that is read from such a row has the sex `false`. -/
theorem sex_of_readUser {notNull : List Bytes} {t : Table notNull} (hbit : BitColumn t (ascii "u_sex"))
    {row : Row} (hrow : row ∈ t.rows) {u : User} (h : readUser (t.value row) = some u) :
    u.sex = false := by
  simp only [readUser, Option.bind_eq_bind, Option.bind_eq_some_iff] at h
  obtain ⟨uID, -, sex, hsex, face, -, password, -, name, -, h⟩ := h
  cases h
  rw [Table.value] at hsex
  rcases hbit row hrow with hcell | hcell
  · rw [hcell] at hsex
    cases hsex
    exact toBool_bit.1
  · rw [hcell] at hsex
    cases hsex
    exact toBool_bit.2

/-! ## Registered users -/

/-- Two users agree in all that is stored of a user. -/
def User.SameRecord (u v : User) : Prop :=
  u.uID = v.uID ∧ u.username = v.username ∧ u.password = v.password ∧
    u.custimface = v.custimface ∧ u.sex = v.sex

/-- What a statement of `AddUser` leaves: the user in the list, and a row that is read as the user
but for the sex, as long as it is in the table. -/
theorem row_of_addUser {s s' : Server} {user : User} {a : Attempt}
    (hplain : ∀ v ∈ (Write.addUser user).values, Plain v) (h : s.addUser user a = (true, s')) :
    (∃ id, s'.manager.cachedUsers = s.manager.cachedUsers ++ [{ user with userid := id }]) ∧
      ∃ row ∈ s'.db.user.rows, (∀ name ∈ userColumns, name ∈ s'.db.user.columns) ∧
        readUser (s'.db.user.value row) =
          some { user with userid := 0, sex := toBool [if user.sex then 1 else 0] } := by
  unfold Server.addUser at h
  rcases Server.write_cases _ (.addUser user) a _ with ⟨-, hwrite⟩ | ⟨db, hexcute, hwrite⟩
  · rw [hwrite] at h
    cases h
  · rw [hwrite] at h
    cases h
    refine ⟨⟨_, rfl⟩, ?_⟩
    obtain ⟨t, ht, rfl⟩ := Option.map_eq_some_iff.1
      (effect_of_excute (w := Write.addUser user) hplain hexcute)
    obtain ⟨hnames, hcolumns, -⟩ := Table.of_insertInto ht
    refine ⟨_, (Table.grows_insertInto ht).2, fun name hname => ?_, ?_⟩
    · have hperm : ∀ name ∈ userColumns, name ∈ [ascii "u_id", ascii "u_userName",
          ascii "u_password", ascii "u_headImage", ascii "u_sex"] := by
        decide
      rw [hcolumns]
      exact hnames name (hperm name hname)
    · simp only [readUser, value_newRow ht (ascii "u_id") rfl, value_newRow ht (ascii "u_sex") rfl,
        value_newRow ht (ascii "u_headImage") rfl, value_newRow ht (ascii "u_password") rfl,
        value_newRow ht (ascii "u_userName") rfl]
      rfl

/-- **A registered user survives a restart exactly when the sex is `false`**, whatever is written in
between and whatever else is in the table. -/
theorem survives_restart_iff {s s' : Server} {user : User} {a : Attempt}
    (hplain : ∀ v ∈ (Write.addUser user).values, Plain v) (hadd : s.addUser user a = (true, s'))
    (calls : List (Write × Attempt)) (hbit : BitColumn (s'.afterCalls calls).db.user (ascii "u_sex"))
    (selected : (s'.afterCalls calls).db.user.Selected) :
    ∃ cached loaded, s'.manager.cachedUsers = s.manager.cachedUsers ++ [cached] ∧
      loadUserFromDB (some selected) = some (true, loaded) ∧
        ((∃ u ∈ loaded, u.SameRecord cached) ↔ user.sex = false) := by
  obtain ⟨⟨id, hcached⟩, row, hrow, hcolumns, hread⟩ := row_of_addUser hplain hadd
  obtain ⟨hsame, hsub⟩ := Server.user_of_afterCalls s' calls
  have hnonempty : selected.rows ≠ [] :=
    List.ne_nil_of_mem (selected.perm.symm.subset (hsub hrow))
  have hselected : ∀ row ∈ selected.rows, row ∈ (s'.afterCalls calls).db.user.rows :=
    fun row hrow => selected.perm.subset hrow
  obtain ⟨loaded, hloaded, -⟩ := mapM_read reads_user (by rwa [hsame]) hselected
  have hrows := map_some_of_mapM hloaded
  refine ⟨_, loaded, hcached, ?_, ?_⟩
  · rw [loadUserFromDB, loadInfo_eq hnonempty, hloaded, Option.map_some]
  · constructor
    · rintro ⟨u, hu, -, -, -, -, hsex⟩
      have hmem : some u ∈ loaded.map some := List.mem_map_of_mem hu
      rw [hrows] at hmem
      obtain ⟨row, hrow, hread⟩ := List.mem_map.1 hmem
      rw [← hsex]
      exact sex_of_readUser hbit (hselected row hrow) hread
    · intro hsex
      have hvalue := Table.value_congr hsame
      have hmem : readUser (s'.db.user.value row) ∈ loaded.map some := by
        rw [hrows, ← hvalue]
        exact List.mem_map_of_mem (selected.perm.symm.subset (hsub hrow))
      obtain ⟨u, hu, heq⟩ := List.mem_map.1 hmem
      rw [hread] at heq
      cases heq
      refine ⟨_, hu, rfl, rfl, rfl, rfl, ?_⟩
      rw [hsex]
      exact toBool_bit.1

/-! ## A user with the sex `true` -/

/-- A user of `smallDatabase` besides `ann`. -/
def newUser (sex : Bool) : User :=
  { uID := ascii "u8", username := ascii "bob", password := ascii "pw", sex }

/-- The statement is carried out. -/
def carriedOut : Attempt := ⟨true, [], fun _ => none⟩

/-- The server after `bob` is registered. -/
def withBob (sex : Bool) : Server :=
  ((⟨smallDatabase, smallManager⟩ : Server).addUser (newUser sex) carriedOut).2

theorem addUser_newUser (sex : Bool) :
    (⟨smallDatabase, smallManager⟩ : Server).addUser (newUser sex) carriedOut =
      (true, withBob sex) := by
  have hadded : ((⟨smallDatabase, smallManager⟩ : Server).addUser (newUser sex) carriedOut).1 =
      true := by
    cases sex <;> decide +kernel
  exact Prod.ext hadded rfl

theorem bitColumn_withBob (sex : Bool) : BitColumn (withBob sex).db.user (ascii "u_sex") := by
  unfold BitColumn
  cases sex <;> decide +kernel

/-- The user `bob` with the sex `true` is not the same after a restart. -/
theorem not_survives_restart :
    ¬ ∀ (s s' : Server) (user : User) (a : Attempt) (calls : List (Write × Attempt))
      (selected : (s'.afterCalls calls).db.user.Selected),
      (∀ v ∈ (Write.addUser user).values, Plain v) → s.addUser user a = (true, s') →
        BitColumn (s'.afterCalls calls).db.user (ascii "u_sex") →
          ∃ cached loaded, s'.manager.cachedUsers = s.manager.cachedUsers ++ [cached] ∧
            loadUserFromDB (some selected) = some (true, loaded) ∧
              ∃ u ∈ loaded, u.SameRecord cached := by
  intro h
  obtain ⟨cached, loaded, hcached, hloaded, u, hu, -, -, -, -, hsex⟩ :=
    h _ _ (newUser true) carriedOut [] ⟨_, .rfl⟩ (by decide) (addUser_newUser true)
      (bitColumn_withBob true)
  have hlast : (withBob true).manager.cachedUsers.getLast?.map User.sex = some true := by
    decide +kernel
  have hsexes : (loadUserFromDB (some ⟨_, .refl (withBob true).db.user.rows⟩)).map
      (fun r => r.2.all fun u => !u.sex) = some true := by
    decide +kernel
  rw [hcached, List.getLast?_concat, Option.map_some, Option.some.injEq] at hlast
  rw [show (withBob true).afterCalls [] = withBob true by rfl] at hloaded
  simp only [hloaded, Option.map_some, Option.some.injEq, List.all_eq_true] at hsexes
  have hfalse := hsexes u hu
  rw [hsex, hlast] at hfalse
  cases hfalse

theorem survives_restart_bob :
    ∃ cached loaded, (withBob false).manager.cachedUsers = smallManager.cachedUsers ++ [cached] ∧
      loadUserFromDB (some ⟨_, .refl (withBob false).db.user.rows⟩) = some (true, loaded) ∧
        ∃ u ∈ loaded, u.SameRecord cached := by
  obtain ⟨cached, loaded, hcached, hloaded, hiff⟩ :=
    survives_restart_iff (by decide) (addUser_newUser false) [] (bitColumn_withBob false)
      ⟨_, .refl _⟩
  exact ⟨cached, loaded, hcached, hloaded, hiff.2 rfl⟩

end GraduationServer
