import GraduationServer.Users.Mirror
import Mathlib.Data.List.Forall2

/-!
# What the loaders load

A loader whose query returns a row reads every row once, in order (`loadInfo_eq`), and takes each
string field of a record from its column. Without a row the names of the columns are gone too: the
loaders of browse and collect records ask `size()` first and load nothing, the other four read
outside of the current row. So all six load exactly what their tables hold if and only if none of
these four tables is empty (`loadsAll_iff`).
-/

namespace GraduationServer

section Load

variable {notNull : List Bytes} {t : Table notNull} {ρ : Type}
  {read : (Bytes → Option Bytes) → Option ρ}

/-! ## Queries with and without rows -/

/-- A loader whose query returns a row. -/
theorem loadInfo_eq {selected : t.Selected} (h : selected.rows ≠ []) :
    loadInfo read (some selected) =
      (selected.rows.mapM fun row => read (t.value row)).map (true, ·) := by
  obtain ⟨rows, hperm⟩ := selected
  cases rows with
  | nil => exact absurd rfl h
  | cons row rows => exact congrArg (Option.map (true, ·)) (loadRows_eq row rows)

/-- A loader whose query returns no row reads outside of the current row. -/
theorem loadInfo_empty (hread : read (fun _ => none) = none) {selected : t.Selected}
    (h : selected.rows = []) : loadInfo read (some selected) = none := by
  obtain ⟨rows, hperm⟩ := selected
  obtain rfl : rows = [] := h
  have hvalue : (QueryResult.mk [] [] []).value = fun _ => none := rfl
  simp [loadInfo, QueryResult.new, loadRows, hvalue, hread]

/-- A loader with a test for `size()` loads nothing then, and is like the others otherwise. -/
theorem loadInfoGuarded_eq (selected : t.Selected) :
    loadInfoGuarded read (some selected) =
      if selected.rows = [] then some (true, []) else loadInfo read (some selected) := by
  obtain ⟨rows, hperm⟩ := selected
  rw [loadInfoGuarded]
  cases rows with
  | nil => rfl
  | cons row rows =>
    -- a row of a table has a cell
    have hrow := t.wide row (hperm.subset List.mem_cons_self)
    have hcolumns := List.length_pos_iff.2 t.nonempty
    have hsize : 0 < (QueryResult.new t.columns (row :: rows)).size := by
      simp only [QueryResult.size, QueryResult.new, List.length_map]
      omega
    rw [if_pos hsize, if_neg (List.cons_ne_nil _ _)]

/-! ## Fields and columns -/

/-- The string fields of a record, each with its column, hold the values of a row. -/
def HoldsRow (fields : List ((ρ → Bytes) × Bytes)) (t : Table notNull) (r : ρ) (row : Row) : Prop :=
  ∀ f ∈ fields, t.value row f.2 = some (f.1 r)

/-- From a row with the given columns a record is read whose string fields hold their values. -/
def Reads (names : List Bytes) (fields : List ((ρ → Bytes) × Bytes))
    (read : (Bytes → Option Bytes) → Option ρ) : Prop :=
  ∀ value : Bytes → Option Bytes, (∀ name ∈ names, (value name).isSome) →
    ∃ r, read value = some r ∧ ∀ f ∈ fields, value f.2 = some (f.1 r)

/-- The loader returns `true` and has loaded a record for each row of the answer, in order, whose
string fields hold the values of their columns. -/
def LoadsExactly (fields : List ((ρ → Bytes) × Bytes)) (selected : t.Selected)
    (loaded : Option (Bool × List ρ)) : Prop :=
  ∃ l, loaded = some (true, l) ∧ List.Forall₂ (HoldsRow fields t) l selected.rows

theorem isSome_cell {α : Type*} {columns : List Bytes} {cells : List α} {name : Bytes}
    (hlength : cells.length = columns.length) (h : name ∈ columns) :
    (cell columns cells name).isSome := by
  induction columns generalizing cells with
  | nil => cases h
  | cons column columns ih =>
    cases cells with
    | nil => cases hlength
    | cons a cells =>
      rw [cell]
      split
      · rfl
      · next hne =>
        refine ih (Nat.succ.inj hlength) ((List.mem_cons.1 h).resolve_left ?_)
        exact fun heq => hne heq.symm

/-- A row has a value in every column. -/
theorem isSome_value {row : Row} (hrow : row ∈ t.rows) {name : Bytes} (h : name ∈ t.columns) :
    (t.value row name).isSome := by
  rw [Table.value, Option.isSome_map]
  exact isSome_cell (t.wide row hrow) h

variable {names : List Bytes} {fields : List ((ρ → Bytes) × Bytes)}

/-- The rows are read as records that hold them. -/
theorem mapM_read (hreads : Reads names fields read) (hcolumns : ∀ name ∈ names, name ∈ t.columns)
    {rows : List Row} (hrows : ∀ row ∈ rows, row ∈ t.rows) :
    ∃ l, (rows.mapM fun row => read (t.value row)) = some l ∧
      List.Forall₂ (HoldsRow fields t) l rows := by
  induction rows with
  | nil => exact ⟨[], rfl, .nil⟩
  | cons row rows ih =>
    obtain ⟨hrow, hrows⟩ := List.forall_mem_cons.1 hrows
    obtain ⟨r, hr, hfields⟩ := hreads (t.value row) fun name hname =>
      isSome_value hrow (hcolumns name hname)
    obtain ⟨l, hl, hholds⟩ := ih hrows
    exact ⟨r :: l, by simp [List.mapM_cons, hr, hl], .cons hfields hholds⟩

variable {selected : t.Selected}

/-- A loader without a test loads exactly what is there if and only if there is something. -/
theorem loadsExactly_loadInfo_iff (hread : read (fun _ => none) = none)
    (hreads : Reads names fields read) (hcolumns : ∀ name ∈ names, name ∈ t.columns) :
    LoadsExactly fields selected (loadInfo read (some selected)) ↔ t.rows ≠ [] := by
  have hempty : selected.rows ≠ [] ↔ t.rows ≠ [] := by
    rw [ne_eq, ← List.length_eq_zero_iff, selected.perm.length_eq, List.length_eq_zero_iff]
  rw [← hempty]
  constructor
  · rintro ⟨l, hl, -⟩ hnone
    rw [loadInfo_empty hread hnone] at hl
    cases hl
  · intro hrows
    have hsub : ∀ row ∈ selected.rows, row ∈ t.rows := fun row hrow => selected.perm.subset hrow
    obtain ⟨l, hl, hholds⟩ := mapM_read hreads hcolumns hsub
    exact ⟨l, by rw [loadInfo_eq hrows, hl, Option.map_some], hholds⟩

/-- A loader with a test always loads exactly what is there. -/
theorem loadsExactly_loadInfoGuarded (hread : read (fun _ => none) = none)
    (hreads : Reads names fields read) (hcolumns : ∀ name ∈ names, name ∈ t.columns) :
    LoadsExactly fields selected (loadInfoGuarded read (some selected)) := by
  rw [loadInfoGuarded_eq]
  split
  · next hnone => exact ⟨[], rfl, by rw [hnone]; exact .nil⟩
  · next hrows =>
    rw [loadsExactly_loadInfo_iff hread hreads hcolumns]
    intro hnone
    exact hrows (selected.perm.trans (by rw [hnone])).eq_nil

end Load

/-! ## The six loaders -/

/-- The string fields of the records, each with the column it is loaded from. -/
def userFields : List ((User → Bytes) × Bytes) :=
  [(User.uID, ascii "u_id"), (User.custimface, ascii "u_headImage"),
    (User.password, ascii "u_password"), (User.username, ascii "u_userName")]

def videoFields : List ((VideoInfo → Bytes) × Bytes) :=
  [(VideoInfo.vId, ascii "v_id"), (VideoInfo.vUpName, ascii "v_upName"),
    (VideoInfo.vFilePath, ascii "v_filePath"), (VideoInfo.vTitle, ascii "v_videoTitle"),
    (VideoInfo.vHeadImgPath, ascii "v_headImgPath"), (VideoInfo.vSynopsis, ascii "v_synopsis"),
    (VideoInfo.vCourses, ascii "v_courses"), (VideoInfo.vUID, ascii "v_uID")]

def audioFields : List ((AudioInfo → Bytes) × Bytes) :=
  [(AudioInfo.aId, ascii "a_id"), (AudioInfo.aUpName, ascii "a_upName"),
    (AudioInfo.aFilePath, ascii "a_filePath"), (AudioInfo.aTitle, ascii "a_audioTitle"),
    (AudioInfo.aHeadImgPath, ascii "a_headImgPath"), (AudioInfo.aCourses, ascii "a_courses"),
    (AudioInfo.aUID, ascii "a_uID")]

def wordFields : List ((WordInfo → Bytes) × Bytes) :=
  [(WordInfo.tId, ascii "t_id"), (WordInfo.upName, ascii "t_upName"),
    (WordInfo.fileData, ascii "t_data"), (WordInfo.title, ascii "t_title"),
    (WordInfo.coursesStr, ascii "t_courses"), (WordInfo.uID, ascii "t_uID")]

def browseFields : List ((BrowseInfo → Bytes) × Bytes) :=
  [(BrowseInfo.bId, ascii "b_id"), (BrowseInfo.bAssetsType, ascii "b_assetsType"),
    (BrowseInfo.bBrowseTitle, ascii "b_browseTitle"), (BrowseInfo.bUID, ascii "b_uID")]

def collectFields : List ((CollectInfo → Bytes) × Bytes) :=
  [(CollectInfo.cId, ascii "c_id"), (CollectInfo.cAssetsType, ascii "c_assetsType"),
    (CollectInfo.cAssetsTitle, ascii "c_assetsTitle"), (CollectInfo.cUID, ascii "c_uID")]

/-- The columns a loader names: those of the string fields, and the sex of a user. -/
def userColumns : List Bytes := ascii "u_sex" :: userFields.map Prod.snd

theorem reads_user : Reads userColumns userFields readUser := by
  intro value h
  simp only [userColumns, userFields, List.map_cons, List.map_nil, List.forall_mem_cons,
    Option.isSome_iff_exists] at h
  obtain ⟨⟨sex, hsex⟩, ⟨uID, huID⟩, ⟨face, hface⟩, ⟨password, hpassword⟩, ⟨name, hname⟩, -⟩ := h
  refine ⟨{ uID, sex := toBool sex, custimface := face, password, username := name }, ?_, ?_⟩
  · simp [readUser, hsex, huID, hface, hpassword, hname]
  · simp [userFields, huID, hface, hpassword, hname]

theorem reads_videoInfo : Reads (videoFields.map Prod.snd) videoFields readVideoInfo := by
  intro value h
  simp only [videoFields, List.map_cons, List.map_nil, List.forall_mem_cons,
    Option.isSome_iff_exists] at h
  obtain ⟨⟨vId, hId⟩, ⟨upName, hupName⟩, ⟨filePath, hfilePath⟩, ⟨title, htitle⟩, ⟨head, hhead⟩,
    ⟨synopsis, hsynopsis⟩, ⟨courses, hcourses⟩, ⟨uID, huID⟩, -⟩ := h
  refine ⟨⟨vId, upName, title, filePath, head, courses, synopsis, uID⟩, ?_, ?_⟩
  · simp [readVideoInfo, hId, hupName, hfilePath, htitle, hhead, hsynopsis, hcourses, huID]
  · simp [videoFields, hId, hupName, hfilePath, htitle, hhead, hsynopsis, hcourses, huID]

theorem reads_audioInfo : Reads (audioFields.map Prod.snd) audioFields readAudioInfo := by
  intro value h
  simp only [audioFields, List.map_cons, List.map_nil, List.forall_mem_cons,
    Option.isSome_iff_exists] at h
  obtain ⟨⟨aId, hId⟩, ⟨upName, hupName⟩, ⟨filePath, hfilePath⟩, ⟨title, htitle⟩, ⟨head, hhead⟩,
    ⟨courses, hcourses⟩, ⟨uID, huID⟩, -⟩ := h
  refine ⟨⟨aId, upName, title, filePath, head, courses, uID⟩, ?_, ?_⟩
  · simp [readAudioInfo, hId, hupName, hfilePath, htitle, hhead, hcourses, huID]
  · simp [audioFields, hId, hupName, hfilePath, htitle, hhead, hcourses, huID]

theorem reads_wordInfo : Reads (wordFields.map Prod.snd) wordFields readWordInfo := by
  intro value h
  simp only [wordFields, List.map_cons, List.map_nil, List.forall_mem_cons,
    Option.isSome_iff_exists] at h
  obtain ⟨⟨tId, hId⟩, ⟨upName, hupName⟩, ⟨data, hdata⟩, ⟨title, htitle⟩, ⟨courses, hcourses⟩,
    ⟨uID, huID⟩, -⟩ := h
  refine ⟨⟨uID, tId, title, upName, courses, data⟩, ?_, ?_⟩
  · simp [readWordInfo, hId, hupName, hdata, htitle, hcourses, huID]
  · simp [wordFields, hId, hupName, hdata, htitle, hcourses, huID]

theorem reads_browseInfo : Reads (browseFields.map Prod.snd) browseFields readBrowseInfo := by
  intro value h
  simp only [browseFields, List.map_cons, List.map_nil, List.forall_mem_cons,
    Option.isSome_iff_exists] at h
  obtain ⟨⟨bId, hId⟩, ⟨type, htype⟩, ⟨title, htitle⟩, ⟨uID, huID⟩, -⟩ := h
  refine ⟨⟨bId, uID, type, title⟩, ?_, ?_⟩
  · simp [readBrowseInfo, hId, htype, htitle, huID]
  · simp [browseFields, hId, htype, htitle, huID]

theorem reads_collectInfo : Reads (collectFields.map Prod.snd) collectFields readCollectInfo := by
  intro value h
  simp only [collectFields, List.map_cons, List.map_nil, List.forall_mem_cons,
    Option.isSome_iff_exists] at h
  obtain ⟨⟨cId, hId⟩, ⟨type, htype⟩, ⟨title, htitle⟩, ⟨uID, huID⟩, -⟩ := h
  refine ⟨⟨cId, uID, type, title⟩, ?_, ?_⟩
  · simp [readCollectInfo, hId, htype, htitle, huID]
  · simp [collectFields, hId, htype, htitle, huID]

/-- The answers of six queries that succeed. -/
structure Selection (db : Database) where
  user : db.user.Selected
  videoData : db.videoData.Selected
  audioData : db.audioData.Selected
  textData : db.textData.Selected
  browseRecords : db.browseRecords.Selected
  assetsCollect : db.assetsCollect.Selected

/-- Every table has the columns that its loader names. -/
structure HasColumns (db : Database) : Prop where
  user : ∀ name ∈ userColumns, name ∈ db.user.columns
  videoData : ∀ name ∈ videoFields.map Prod.snd, name ∈ db.videoData.columns
  audioData : ∀ name ∈ audioFields.map Prod.snd, name ∈ db.audioData.columns
  textData : ∀ name ∈ wordFields.map Prod.snd, name ∈ db.textData.columns
  browseRecords : ∀ name ∈ browseFields.map Prod.snd, name ∈ db.browseRecords.columns
  assetsCollect : ∀ name ∈ collectFields.map Prod.snd, name ∈ db.assetsCollect.columns

/-- Each of the six loaders loads exactly what its query returns. -/
structure LoadsAll {db : Database} (r : Selection db) : Prop where
  user : LoadsExactly userFields r.user (loadUserFromDB (some r.user))
  video : LoadsExactly videoFields r.videoData (loadInfo readVideoInfo (some r.videoData))
  audio : LoadsExactly audioFields r.audioData (loadInfo readAudioInfo (some r.audioData))
  word : LoadsExactly wordFields r.textData (loadInfo readWordInfo (some r.textData))
  browse : LoadsExactly browseFields r.browseRecords
    (loadInfoGuarded readBrowseInfo (some r.browseRecords))
  collect : LoadsExactly collectFields r.assetsCollect
    (loadInfoGuarded readCollectInfo (some r.assetsCollect))

/-- **The six loaders load exactly what their tables hold if and only if there are users, videos,
audio files and texts.** -/
theorem loadsAll_iff {db : Database} (h : HasColumns db) (r : Selection db) :
    LoadsAll r ↔ db.user.rows ≠ [] ∧ db.videoData.rows ≠ [] ∧ db.audioData.rows ≠ [] ∧
      db.textData.rows ≠ [] := by
  have huser := @loadsExactly_loadInfo_iff _ _ _ _ _ _ r.user rfl reads_user h.user
  have hvideo := @loadsExactly_loadInfo_iff _ _ _ _ _ _ r.videoData rfl reads_videoInfo h.videoData
  have haudio := @loadsExactly_loadInfo_iff _ _ _ _ _ _ r.audioData rfl reads_audioInfo h.audioData
  have hword := @loadsExactly_loadInfo_iff _ _ _ _ _ _ r.textData rfl reads_wordInfo h.textData
  rw [← huser, ← hvideo, ← haudio, ← hword]
  constructor
  · intro hall
    exact ⟨hall.user, hall.video, hall.audio, hall.word⟩
  · rintro ⟨huser, hvideo, haudio, hword⟩
    exact ⟨huser, hvideo, haudio, hword,
      loadsExactly_loadInfoGuarded rfl reads_browseInfo h.browseRecords,
      loadsExactly_loadInfoGuarded rfl reads_collectInfo h.assetsCollect⟩

/-! ## A database without texts -/

/-- `smallDatabase` without its text. -/
def textlessDatabase : Database :=
  { smallDatabase with
    textData :=
      { smallDatabase.textData with
        rows := []
        wide := by decide
        strict := by decide } }

theorem hasColumns_smallDatabase : HasColumns smallDatabase := by
  constructor <;> decide +kernel

/-- The start without a text reads outside of a row. -/
theorem not_loadsAll_textless : ¬ ∀ (db : Database) (r : Selection db), HasColumns db → LoadsAll r := by
  intro h
  have hcolumns : HasColumns textlessDatabase := by
    constructor <;> decide +kernel
  have hall := h textlessDatabase ⟨⟨_, .rfl⟩, ⟨_, .rfl⟩, ⟨_, .rfl⟩, ⟨_, .rfl⟩, ⟨_, .rfl⟩, ⟨_, .rfl⟩⟩
    hcolumns
  obtain ⟨l, hl, -⟩ := hall.word
  rw [loadInfo_empty rfl rfl] at hl
  cases hl

theorem loadsAll_smallDatabase :
    @LoadsAll smallDatabase
      ⟨⟨_, .rfl⟩, ⟨_, .rfl⟩, ⟨_, .rfl⟩, ⟨_, .rfl⟩, ⟨_, .rfl⟩, ⟨_, .rfl⟩⟩ :=
  (loadsAll_iff hasColumns_smallDatabase _).2 (by decide +kernel)

end GraduationServer
