import GraduationServer.Foundations.Runs
import GraduationServer.Users.UserManager

/-!
# The copies mirror the tables

Each list of the manager is to hold, in some order, the records of its table (`Mirrors`), a record
being what a loader reads from a row. `Init` establishes this (`mirror_init`), every insertion keeps
it, and so does a removal of which the list holds one record. The statement of
`removeOneCollectInfo` deletes every row of the record while the list loses the first one, so the
removal of a record that was added twice leaves the list with a record the table has not:
`mirror_run_iff` says that along a run the mirror is kept exactly when no such removal succeeds.
-/

namespace GraduationServer

open QuotedText

section Mirrors

variable {notNull : List Bytes} {t t' : Table notNull} {ρ : Type}
  {read : (Bytes → Option Bytes) → Option ρ} {cache : List ρ}

/-- What a loader sees in a column of a row. -/
def Table.value (t : Table notNull) (row : Row) (name : Bytes) : Option Bytes :=
  (cell t.columns row name).map fieldValue

/-- Only the columns matter for what is seen in a row. -/
theorem Table.value_congr (h : t'.columns = t.columns) : t'.value = t.value := by
  funext row name
  rw [value, value, h]

/-- A text is read in a column that holds it, where no `NULL` may stand. -/
theorem Table.value_eq_iff {row : Row} (hrow : row ∈ t.rows) {name : Bytes}
    (hname : name ∈ notNull) {v : Bytes} :
    t.value row name = some v ↔ cell t.columns row name = some (some v) := by
  have hstrict := t.strict row hrow name hname
  rw [value]
  cases hcell : cell t.columns row name with
  | none => simp
  | some o =>
    cases o with
    | none => exact absurd hcell hstrict
    | some w => simp [fieldValue]

/-- The list holds what is read from the rows of the table, in some order. -/
def Mirrors (read : (Bytes → Option Bytes) → Option ρ) (t : Table notNull) (cache : List ρ) : Prop :=
  (cache.map some).Perm (t.rows.map fun row => read (t.value row))

/-! ## Loading -/

/-- The loop reads each row once. -/
theorem loadRows_eq (row : Row) (rows : List Row) :
    loadRows read t.columns (row.map fieldValue) rows =
      (row :: rows).mapM fun row => read (t.value row) := by
  have hvalue : ∀ (row : Row) (rows : List Row),
      (QueryResult.mk t.columns (row.map fieldValue) rows).value = t.value row := by
    intro row rows
    funext name
    exact cell_map fieldValue t.columns row name
  induction rows generalizing row with
  | nil =>
    rw [loadRows, hvalue]
    cases h : read (t.value row) <;> simp [h]
  | cons row' rows ih =>
    rw [loadRows, hvalue, ih]
    generalize row' :: rows = behind
    rw [List.mapM_cons]
    cases read (t.value row) with
    | none => rfl
    | some a =>
      rw [Option.bind_some, Option.bind_eq_bind, Option.bind_some]
      cases behind.mapM fun row => read (t.value row) <;> rfl

/-- The rows are read one after the other. -/
theorem map_some_of_loadRows {row : Row} {rows : List Row} {l : List ρ}
    (h : loadRows read t.columns (row.map fieldValue) rows = some l) :
    l.map some = (row :: rows).map fun row => read (t.value row) := by
  rw [loadRows_eq] at h
  exact map_some_of_mapM h

/-- A list that was loaded mirrors its table; the loader reads something in every row. -/
theorem mirrors_of_loadInfo (hread : read (fun _ => none) = none) {answer : Option t.Selected}
    {l : List ρ} (h : loadInfo read answer = some (true, l)) : Mirrors read t l := by
  cases answer with
  | none => simp [loadInfo] at h
  | some selected =>
    obtain ⟨rows, hperm⟩ := selected
    unfold Mirrors
    simp only [loadInfo, Option.map_eq_some_iff, Prod.mk.injEq, true_and, exists_eq_right] at h
    cases rows with
    | nil =>
      have hempty : (QueryResult.mk [] [] []).value = fun _ => none := rfl
      simp [QueryResult.new, loadRows, hempty, hread] at h
    | cons row rows =>
      rw [map_some_of_loadRows h]
      exact hperm.map _

theorem mirrors_of_loadInfoGuarded (hread : read (fun _ => none) = none)
    {answer : Option t.Selected} {l : List ρ} (h : loadInfoGuarded read answer = some (true, l)) :
    Mirrors read t l := by
  cases answer with
  | none => simp [loadInfoGuarded] at h
  | some selected =>
    rw [loadInfoGuarded] at h
    split at h
    · exact mirrors_of_loadInfo hread h
    · next hsize =>
      obtain ⟨rows, hperm⟩ := selected
      simp only [Option.some.injEq, Prod.mk.injEq, true_and] at h
      subst h
      cases rows with
      | nil => simp [Mirrors, hperm.symm.eq_nil]
      | cons row rows =>
        -- a row of a table has a cell
        have hrow := t.wide row (hperm.subset List.mem_cons_self)
        have hcolumns := List.length_pos_iff.2 t.nonempty
        simp only [QueryResult.size, QueryResult.new, List.length_map] at hsize
        omega

/-! ## Inserting and deleting -/

theorem mem_of_cell {α : Type*} {columns : List Bytes} {cells : List α} {name : Bytes} {a : α}
    (h : cell columns cells name = some a) : name ∈ columns := by
  induction columns generalizing cells with
  | nil => cases h
  | cons column columns ih =>
    cases cells with
    | nil => cases h
    | cons b cells =>
      rw [cell] at h
      split at h
      · next heq => exact heq ▸ List.mem_cons_self
      · exact List.mem_cons_of_mem _ (ih h)

/-- A value that was inserted is read in its column. -/
theorem value_newRow {names : List Bytes} {values : List (Option Bytes)}
    {others : Bytes → Option Bytes} (hins : t.insertInto names values others = some t')
    (name : Bytes) {v : Option Bytes} (h : cell names values name = some v) :
    t'.value (t.newRow names values others) name = some (fieldValue v) := by
  obtain ⟨hnames, hcolumns, -⟩ := Table.of_insertInto hins
  rw [Table.value, Table.newRow, hcolumns, cell_map_self _ (hnames name (mem_of_cell h)), h]
  rfl

theorem Mirrors.insert {names : List Bytes} {values : List (Option Bytes)}
    {others : Bytes → Option Bytes} {x : ρ} (h : Mirrors read t cache)
    (hins : t.insertInto names values others = some t')
    (hread : read (t'.value (t.newRow names values others)) = some x) :
    Mirrors read t' (cache ++ [x]) := by
  obtain ⟨-, hcolumns, hrows⟩ := Table.of_insertInto hins
  rw [Mirrors, hrows, List.map_append, List.map_append, List.map_singleton, List.map_singleton, hread,
    Table.value_congr hcolumns]
  exact h.append_right _

/-- A deletion removes from the table what the test finds in the list. -/
theorem Mirrors.delete {conditions : List (Bytes × Bytes)} {p : ρ → Bool} (h : Mirrors read t cache)
    (hp : ∀ row ∈ t.rows, ∀ x, read (t.value row) = some x → p x = t.matchesRow conditions row)
    (hdel : t.deleteFrom conditions = some t') : Mirrors read t' (cache.filter fun x => !p x) := by
  obtain ⟨hcolumns, hrows⟩ := Table.of_deleteFrom hdel
  have hfilter := h.filter fun o => o.all fun x => !p x
  rw [List.filter_map, List.filter_map] at hfilter
  have hkept : t.rows.filter ((fun o : Option ρ => o.all fun x => !p x) ∘
      fun row => read (t.value row)) = t'.rows := by
    rw [hrows]
    refine List.filter_congr fun row hrow => ?_
    -- every row is read, since it is one of the list's records
    have hmem : read (t.value row) ∈ cache.map some := h.symm.subset (List.mem_map_of_mem hrow)
    obtain ⟨x, -, hx⟩ := List.mem_map.1 hmem
    simp [← hx, hp row hrow x hx.symm]
  rw [hkept] at hfilter
  rw [Mirrors, Table.value_congr hcolumns]
  exact hfilter

/-- Lists that mirror one table have the same length. -/
theorem Mirrors.length_eq {cache' : List ρ} (h : Mirrors read t cache) (h' : Mirrors read t cache') :
    cache.length = cache'.length := by
  have hperm : (cache.map some).Perm (cache'.map some) := h.trans h'.symm
  simpa using hperm.length_eq

end Mirrors

/-! ## The five lists -/

/-- Each of the five lists mirrors its table. -/
structure Mirror (s : Server) : Prop where
  video : Mirrors readVideoInfo s.db.videoData s.manager.cacheVideoInfo
  audio : Mirrors readAudioInfo s.db.audioData s.manager.cacheAudioInfo
  word : Mirrors readWordInfo s.db.textData s.manager.cacheWordInfo
  browse : Mirrors readBrowseInfo s.db.browseRecords s.manager.cacheBrowseInfo
  collect : Mirrors readCollectInfo s.db.assetsCollect s.manager.cacheCollectInfo

theorem loaded_of_loadThen {α : Type} {loaded : Option (Bool × α)} {store : α → UserManager}
    {rest : UserManager → Option (Bool × UserManager)} {m : UserManager}
    (h : loadThen loaded store rest = some (true, m)) :
    ∃ l, loaded = some (true, l) ∧ rest (store l) = some (true, m) := by
  unfold loadThen at h
  split at h
  · cases h
  · cases h
  · next l => exact ⟨l, rfl, h⟩

/-- A successful `Init` loads the mirror. -/
theorem mirror_init {db : Database} {answers : Answers db} {m : UserManager}
    (h : init db answers = some (true, m)) : Mirror ⟨db, m⟩ := by
  obtain ⟨users, -, h⟩ := loaded_of_loadThen h
  obtain ⟨videos, hvideos, h⟩ := loaded_of_loadThen h
  obtain ⟨audios, haudios, h⟩ := loaded_of_loadThen h
  obtain ⟨words, hwords, h⟩ := loaded_of_loadThen h
  obtain ⟨browses, hbrowses, h⟩ := loaded_of_loadThen h
  obtain ⟨collects, hcollects, h⟩ := loaded_of_loadThen h
  cases h
  exact ⟨mirrors_of_loadInfo rfl hvideos, mirrors_of_loadInfo rfl haudios,
    mirrors_of_loadInfo rfl hwords, mirrors_of_loadInfoGuarded rfl hbrowses,
    mirrors_of_loadInfoGuarded rfl hcollects⟩

/-! ## One call -/

namespace Server

/-- The server after a call of one of the functions that write. -/
def call (s : Server) (w : Write) (a : Attempt) : Bool × Server :=
  match w with
  | .addUser user => s.addUser user a
  | .addWordInfoFromDB info => s.addWordInfoFromDB info a
  | .addVideoInfoFromDB info => s.addVideoInfoFromDB info a
  | .addAudioInfoFromDB info => s.addAudioInfoFromDB info a
  | .removeOneCollectInfo uID assetsTitle assetsType =>
    s.removeOneCollectInfo uID assetsTitle assetsType a
  | .addBrowseInfoFromDB bId bUID bAssetsType bAssetsTitle =>
    s.addBrowseInfoFromDB bId bUID bAssetsType bAssetsTitle a
  | .addCollectInfoFromDB cId cUID cAssetsType cAssetsTitle =>
    s.addCollectInfoFromDB cId cUID cAssetsType cAssetsTitle a

end Server

/-- A write keeps the mirror if it does so when its statement is carried out. -/
theorem Mirror.write {s : Server} {w : Write} {a : Attempt} {change : UserManager → UserManager}
    (hplain : ∀ v ∈ w.values, Plain v) (h : Mirror s)
    (hchange : ∀ db, w.shape.effect w.values a s.db = some db → Mirror ⟨db, change s.manager⟩) :
    Mirror (s.write w a change).2 := by
  rcases s.write_cases w a change with ⟨-, hwrite⟩ | ⟨db, hexcute, hwrite⟩
  · rw [hwrite]
    exact h
  · rw [hwrite]
    exact hchange db (effect_of_excute hplain hexcute)

/-- Every call but a removal keeps the mirror. -/
theorem Mirror.add {s : Server} {w : Write} {a : Attempt} (hplain : ∀ v ∈ w.values, Plain v)
    (h : Mirror s) (hadd : w.shape ≠ .removeOneCollectInfo) : Mirror (s.call w a).2 := by
  cases w with
  | addUser user =>
    refine Mirror.write hplain ⟨h.video, h.audio, h.word, h.browse, h.collect⟩ fun db hdb => ?_
    obtain ⟨t, -, rfl⟩ := Option.map_eq_some_iff.1 hdb
    exact ⟨h.video, h.audio, h.word, h.browse, h.collect⟩
  | addWordInfoFromDB info =>
    refine Mirror.write hplain h fun db hdb => ?_
    obtain ⟨t, ht, rfl⟩ := Option.map_eq_some_iff.1 hdb
    refine ⟨h.video, h.audio, h.word.insert ht ?_, h.browse, h.collect⟩
    simp only [readWordInfo, value_newRow ht (ascii "t_id") rfl,
      value_newRow ht (ascii "t_upName") rfl, value_newRow ht (ascii "t_data") rfl,
      value_newRow ht (ascii "t_title") rfl, value_newRow ht (ascii "t_courses") rfl,
      value_newRow ht (ascii "t_uID") rfl]
    rfl
  | addVideoInfoFromDB info =>
    refine Mirror.write hplain h fun db hdb => ?_
    obtain ⟨t, ht, rfl⟩ := Option.map_eq_some_iff.1 hdb
    refine ⟨h.video.insert ht ?_, h.audio, h.word, h.browse, h.collect⟩
    simp only [readVideoInfo, value_newRow ht (ascii "v_id") rfl,
      value_newRow ht (ascii "v_upName") rfl, value_newRow ht (ascii "v_filePath") rfl,
      value_newRow ht (ascii "v_videoTitle") rfl, value_newRow ht (ascii "v_headImgPath") rfl,
      value_newRow ht (ascii "v_synopsis") rfl, value_newRow ht (ascii "v_courses") rfl,
      value_newRow ht (ascii "v_uID") rfl]
    rfl
  | addAudioInfoFromDB info =>
    refine Mirror.write hplain h fun db hdb => ?_
    obtain ⟨t, ht, rfl⟩ := Option.map_eq_some_iff.1 hdb
    refine ⟨h.video, h.audio.insert ht ?_, h.word, h.browse, h.collect⟩
    simp only [readAudioInfo, value_newRow ht (ascii "a_id") rfl,
      value_newRow ht (ascii "a_upName") rfl, value_newRow ht (ascii "a_filePath") rfl,
      value_newRow ht (ascii "a_audioTitle") rfl, value_newRow ht (ascii "a_headImgPath") rfl,
      value_newRow ht (ascii "a_courses") rfl, value_newRow ht (ascii "a_uID") rfl]
    rfl
  | removeOneCollectInfo uID assetsTitle assetsType => exact absurd rfl hadd
  | addBrowseInfoFromDB bId bUID bAssetsType bAssetsTitle =>
    refine Mirror.write hplain h fun db hdb => ?_
    obtain ⟨t, ht, rfl⟩ := Option.map_eq_some_iff.1 hdb
    refine ⟨h.video, h.audio, h.word, h.browse.insert ht ?_, h.collect⟩
    simp only [readBrowseInfo, value_newRow ht (ascii "b_id") rfl,
      value_newRow ht (ascii "b_assetsType") rfl, value_newRow ht (ascii "b_browseTitle") rfl,
      value_newRow ht (ascii "b_uID") rfl]
    rfl
  | addCollectInfoFromDB cId cUID cAssetsType cAssetsTitle =>
    refine Mirror.write hplain h fun db hdb => ?_
    obtain ⟨t, ht, rfl⟩ := Option.map_eq_some_iff.1 hdb
    refine ⟨h.video, h.audio, h.word, h.browse, h.collect.insert ht ?_⟩
    simp only [readCollectInfo, value_newRow ht (ascii "c_id") rfl,
      value_newRow ht (ascii "c_assetsType") rfl, value_newRow ht (ascii "c_assetsTitle") rfl,
      value_newRow ht (ascii "c_uID") rfl]
    rfl

/-! ## Removals -/

/-- Erasing the first element that passes a test leaves the elements that do not pass it exactly
when at most one does. -/
theorem length_eraseP_eq_iff {α : Type} (p : α → Bool) (l : List α) :
    (l.eraseP p).length = (l.filter fun x => !p x).length ↔ l.countP p ≤ 1 := by
  have hsplit := List.length_eq_countP_add_countP p (l := l)
  have hfilter : (l.filter fun x => !p x).length = l.countP fun x => !p x :=
    List.countP_eq_length_filter.symm
  have hnot : (l.countP fun x => decide (¬ p x = true)) = l.countP fun x => !p x := by
    congr 1
    funext x
    cases p x <;> rfl
  rw [List.length_eraseP, hfilter]
  split
  · next hany =>
    have hpos : 0 < l.countP p := List.countP_pos_iff.2 (by simpa using hany)
    omega
  · next hany =>
    have hzero : ¬ 0 < l.countP p := fun h => hany (by simpa using List.countP_pos_iff.1 h)
    omega

theorem eraseP_eq_filter {α : Type} {p : α → Bool} {l : List α} (h : l.countP p ≤ 1) :
    l.eraseP p = l.filter fun x => !p x := by
  induction l with
  | nil => rfl
  | cons x l ih =>
    cases hx : p x with
    | false =>
      rw [List.countP_cons_of_neg (by simp [hx])] at h
      rw [List.eraseP_cons_of_neg (by simp [hx]), List.filter_cons_of_pos (by simp [hx]), ih h]
    | true =>
      rw [List.countP_cons_of_pos hx] at h
      have hnone : ∀ y ∈ l, ¬ p y = true := List.countP_eq_zero.1 (by omega)
      rw [List.eraseP_cons_of_pos hx, List.filter_cons_of_neg (by simp [hx]),
        List.filter_eq_self.2 (by simpa using hnone)]

/-- The test on a record of the list is the condition of the statement on its row. -/
theorem isCollect_eq_matchesRow {db : Database} {uID assetsTitle assetsType : Bytes} {row : Row}
    (hrow : row ∈ db.assetsCollect.rows) {info : CollectInfo}
    (hread : readCollectInfo (db.assetsCollect.value row) = some info) :
    Server.isCollect uID assetsTitle assetsType info =
      db.assetsCollect.matchesRow ([ascii "c_uID", ascii "c_assetsTitle", ascii "c_assetsType"].zip
        [uID, assetsTitle, assetsType]) row := by
  simp only [readCollectInfo, Option.bind_eq_bind, Option.bind_eq_some_iff] at hread
  obtain ⟨cId, -, cType, htype, cTitle, htitle, cUID, huser, h⟩ := hread
  cases h
  have huser := (Table.value_eq_iff hrow (by decide)).1 huser
  have htitle := (Table.value_eq_iff hrow (by decide)).1 htitle
  have htype := (Table.value_eq_iff hrow (by decide)).1 htype
  simp [Server.isCollect, Table.matchesRow, huser, htitle, htype, Bool.and_assoc]

/-- **A removal keeps the mirror exactly when the list holds at most one such record, or the
statement fails.** -/
theorem Mirror.remove_iff {s : Server} {uID assetsTitle assetsType : Bytes} {a : Attempt}
    (hplain : ∀ v ∈ [uID, assetsTitle, assetsType], Plain v) (h : Mirror s) :
    Mirror (s.removeOneCollectInfo uID assetsTitle assetsType a).2 ↔
      ((excute s.db (Write.removeOneCollectInfo uID assetsTitle assetsType).sql a).isSome →
        s.manager.cacheCollectInfo.countP (Server.isCollect uID assetsTitle assetsType) ≤ 1) := by
  simp only [Server.removeOneCollectInfo]
  split
  · next hany =>
    rcases s.write_cases (Write.removeOneCollectInfo uID assetsTitle assetsType) a _ with
      ⟨hexcute, hwrite⟩ | ⟨db, hexcute, hwrite⟩
    · rw [hwrite, hexcute]
      simpa using h
    · rw [hwrite, hexcute]
      have heffect := effect_of_excute (w := Write.removeOneCollectInfo ..) hplain hexcute
      obtain ⟨t, ht, rfl⟩ := Option.map_eq_some_iff.1 heffect
      have hdeleted := h.collect.delete
        (p := Server.isCollect uID assetsTitle assetsType)
        (fun row hrow info hread => isCollect_eq_matchesRow hrow hread) ht
      simp only [Option.isSome_some, forall_const]
      constructor
      · intro hmirror
        rw [← length_eraseP_eq_iff]
        exact hmirror.collect.length_eq hdeleted
      · intro hone
        refine ⟨h.video, h.audio, h.word, h.browse, ?_⟩
        rw [← eraseP_eq_filter hone] at hdeleted
        exact hdeleted
  · next hany =>
    have hzero : s.manager.cacheCollectInfo.countP
        (Server.isCollect uID assetsTitle assetsType) = 0 := by
      rw [List.countP_eq_zero]
      simpa using hany
    simp [h, hzero]

/-! ## Runs -/

/-- A call with what happens when its statement is carried out; its strings hold neither a quote nor
a backslash. -/
structure Request where
  write : Write
  attempt : Attempt
  plain : ∀ v ∈ write.values, Plain v

namespace Server

/-- The server after a request. -/
def after (s : Server) (q : Request) : Server := (s.call q.write q.attempt).2

/-- The condition on a request: when it removes a favourite and the statement succeeds, the list
holds at most one such record. -/
def RemovesOne (s : Server) (q : Request) : Prop :=
  match q.write with
  | .removeOneCollectInfo uID assetsTitle assetsType =>
    (excute s.db q.write.sql q.attempt).isSome →
      s.manager.cacheCollectInfo.countP (isCollect uID assetsTitle assetsType) ≤ 1
  | _ => True

end Server

theorem Mirror.after_iff {s : Server} (h : Mirror s) (q : Request) :
    Mirror (s.after q) ↔ s.RemovesOne q := by
  obtain ⟨w, a, hplain⟩ := q
  cases w with
  | removeOneCollectInfo uID assetsTitle assetsType => exact h.remove_iff hplain
  | _ => exact iff_of_true (h.add hplain (by simp [Write.shape])) trivial

/-- **Along a run the mirror is kept exactly when no removal of a favourite that the list holds more
than once succeeds.** -/
theorem mirror_run_iff {db : Database} {answers : Answers db} {m : UserManager}
    (hinit : init db answers = some (true, m)) (requests : List Request) :
    Mirror ⟨db, m⟩ ∧
      (Along (fun s q => some (Server.after s q)) (fun s q => Mirror (s.after q)) ⟨db, m⟩ requests ↔
        Along (fun s q => some (Server.after s q)) Server.RemovesOne ⟨db, m⟩ requests) := by
  have hmirror := mirror_init hinit
  refine ⟨hmirror, along_iff Mirror (fun s q hs => hs.after_iff q) ?_ requests _ hmirror⟩
  intro s q s' hs hone hnext
  cases hnext
  exact (hs.after_iff q).2 hone

/-! ## A favourite added twice -/

/-- A database with one record in each table that may not be empty. -/
def smallDatabase : Database where
  user :=
    { columns :=
        [ascii "u_id", ascii "u_userName", ascii "u_password", ascii "u_headImage", ascii "u_sex"]
      rows := [[some (ascii "7"), some (ascii "ann"), some (ascii "pw"), none, some [1]]]
      nonempty := by decide
      wide := by decide
      strict := by decide +kernel }
  videoData :=
    { columns :=
        [ascii "v_id", ascii "v_upName", ascii "v_videoTitle", ascii "v_courses",
          ascii "v_filePath", ascii "v_headImgPath", ascii "v_synopsis", ascii "v_uID"]
      rows := [List.replicate 8 (some (ascii "v"))]
      nonempty := by decide
      wide := by decide
      strict := by decide +kernel }
  audioData :=
    { columns :=
        [ascii "a_id", ascii "a_upName", ascii "a_audioTitle", ascii "a_courses",
          ascii "a_filePath", ascii "a_headImgPath", ascii "a_uID"]
      rows := [List.replicate 7 (some (ascii "a"))]
      nonempty := by decide
      wide := by decide
      strict := by decide +kernel }
  textData :=
    { columns :=
        [ascii "t_id", ascii "t_upName", ascii "t_title", ascii "t_courses", ascii "t_data",
          ascii "t_uID"]
      rows := [List.replicate 6 (some (ascii "t"))]
      nonempty := by decide
      wide := by decide
      strict := by decide }
  browseRecords :=
    { columns :=
        [ascii "b_id", ascii "b_uID", ascii "b_assetsType", ascii "b_browseTime",
          ascii "b_browseTitle"]
      rows := []
      nonempty := by decide
      wide := by decide
      strict := by decide }
  assetsCollect :=
    { columns := [ascii "c_id", ascii "c_uID", ascii "c_assetsType", ascii "c_assetsTitle"]
      rows := []
      nonempty := by decide
      wide := by decide
      strict := by decide }

/-- Every query succeeds. -/
def smallAnswers : Answers smallDatabase where
  user := some ⟨_, .rfl⟩
  videoData := some ⟨_, .rfl⟩
  audioData := some ⟨_, .rfl⟩
  textData := some ⟨_, .rfl⟩
  browseRecords := some ⟨_, .rfl⟩
  assetsCollect := some ⟨_, .rfl⟩

/-- What `Init` loads from `smallDatabase`. -/
def smallManager : UserManager := ((init smallDatabase smallAnswers).getD default).2

theorem init_smallDatabase : init smallDatabase smallAnswers = some (true, smallManager) := by
  decide +kernel

/-- A video is added to the favourites of user 7, under an id of its own. -/
def addFavourite (cId : Bytes) (h : Plain cId) : Request where
  write := .addCollectInfoFromDB cId (ascii "7") (ascii "video") (ascii "v")
  attempt := ⟨true, [], fun _ => none⟩
  plain := by simpa [Write.values, h] using by decide

/-- The video is removed from the favourites. -/
def removeFavourite : Request where
  write := .removeOneCollectInfo (ascii "7") (ascii "v") (ascii "video")
  attempt := ⟨true, [], fun _ => none⟩
  plain := by decide

/-- The mirror is lost when a favourite that was added twice is removed: the list keeps a record, and
the table has none. -/
theorem not_mirror_addTwiceRemove :
    init smallDatabase smallAnswers = some (true, smallManager) ∧
      ¬ Along (fun s q => some (Server.after s q)) (fun s q => Mirror (s.after q))
        ⟨smallDatabase, smallManager⟩
        [addFavourite (ascii "c1") (by decide), addFavourite (ascii "c2") (by decide),
          removeFavourite] := by
  refine ⟨init_smallDatabase, fun h => ?_⟩
  have hlast := (h.2 _ rfl).2 _ rfl
  have hlength := List.Perm.length_eq hlast.1.collect
  rw [List.length_map, List.length_map] at hlength
  revert hlength
  decide +kernel

/-- A run that adds a favourite once and removes it. -/
theorem mirror_run_addRemove :
    Along (fun s q => some (Server.after s q)) (fun s q => Mirror (s.after q))
      ⟨smallDatabase, smallManager⟩ [addFavourite (ascii "c1") (by decide), removeFavourite] := by
  refine (mirror_run_iff init_smallDatabase _).2.2 ⟨trivial, fun s hs => ?_⟩
  cases hs
  refine ⟨fun _ => ?_, fun _ _ => trivial⟩
  decide +kernel

end GraduationServer
