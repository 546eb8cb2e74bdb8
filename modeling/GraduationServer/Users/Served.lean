import GraduationServer.Database.Visits
import GraduationServer.Users.Loading

/-!
# The declared schema and the issued statements

Every statement of the user manager names a table and some columns of it, and an `insert` has to supply
every column that may not be `NULL` and has no default. A visit of `Init` that succeeds creates a table
that is not there, and otherwise changes at most the definition of one column (`of_visitTable`): the
statement that would add a column is refused for its misspelt keyword. So what is there at the start
decides: the statements are served afterwards if and only if the schema was prepared for them
(`serves_iff_prepared`), since `Init` never creates `tab_textData` and creates `tab_assetsCollect` with
columns that no statement supplies.
-/

namespace GraduationServer

/-! ## The statements -/

/-- A statement: its table, the columns that it or the loader of its result names, and whether it is an
`insert`, which supplies them. -/
structure Issued where
  table : Bytes
  names : List Bytes
  supplies : Bool

/-- The statements that write. -/
def Shape.issued : Shape → Issued
  | addUser _ =>
    ⟨ascii "tab_user", [ascii "u_id", ascii "u_userName", ascii "u_password", ascii "u_headImage",
      ascii "u_sex"], true⟩
  | addWordInfo =>
    ⟨ascii "tab_textData", [ascii "t_id", ascii "t_upName", ascii "t_title", ascii "t_courses",
      ascii "t_data", ascii "t_uID"], true⟩
  | addVideoInfo =>
    ⟨ascii "tab_videoData", [ascii "v_id", ascii "v_upName", ascii "v_videoTitle", ascii "v_courses",
      ascii "v_filePath", ascii "v_headImgPath", ascii "v_synopsis", ascii "v_uID"], true⟩
  | addAudioInfo =>
    ⟨ascii "tab_audioData", [ascii "a_id", ascii "a_upName", ascii "a_audioTitle", ascii "a_courses",
      ascii "a_filePath", ascii "a_headImgPath", ascii "a_uID"], true⟩
  | removeOneCollectInfo =>
    ⟨ascii "tab_assetsCollect", [ascii "c_uID", ascii "c_assetsTitle", ascii "c_assetsType"], false⟩
  | addBrowseInfo =>
    ⟨ascii "tab_browseRecords", [ascii "b_id", ascii "b_uID", ascii "b_assetsType",
      ascii "b_browseTime", ascii "b_browseTitle"], true⟩
  | addCollectInfo =>
    ⟨ascii "tab_assetsCollect", [ascii "c_id", ascii "c_uID", ascii "c_assetsType",
      ascii "c_assetsTitle"], true⟩

/-- The statements that read: the loaders, and the listings of a user. -/
def queries : List Issued :=
  [⟨ascii "tab_user", userColumns, false⟩,
    ⟨ascii "tab_videoData", videoFields.map Prod.snd, false⟩,
    ⟨ascii "tab_audioData", audioFields.map Prod.snd, false⟩,
    ⟨ascii "tab_textData", wordFields.map Prod.snd, false⟩,
    ⟨ascii "tab_browseRecords", browseFields.map Prod.snd, false⟩,
    ⟨ascii "tab_assetsCollect", collectFields.map Prod.snd, false⟩,
    ⟨ascii "tab_browseRecords", [ascii "b_uID", ascii "b_assetsType", ascii "b_browseTitle"], false⟩,
    ⟨ascii "tab_assetsCollect", [ascii "c_uID", ascii "c_assetsType", ascii "c_assetsTitle"], false⟩]

/-- All statements of the user manager. -/
def issued : List Issued := Shape.all.map Shape.issued ++ queries

/-- An `insert` has to supply a value. -/
def Column.required (c : Column) : Bool := c.notNull && !c.hasDefault

/-- A table with the columns serves the statement. -/
def Issued.Fits (st : Issued) (columns : List Column) : Prop :=
  (∀ name ∈ st.names, name ∈ columns.map Column.name) ∧
    (st.supplies = true → ∀ c ∈ columns, c.required = true → c.name ∈ st.names)

instance (st : Issued) (columns : List Column) : Decidable (st.Fits columns) :=
  inferInstanceAs (Decidable (_ ∧ _))

/-- The schema serves every statement. -/
def Serves (schema : Schema) : Prop :=
  ∀ st ∈ issued, ∃ t, schema st.table = some t ∧ st.Fits t.columns

/-- A table of the name with the columns serves every statement on it. -/
def Fits (name : Bytes) (columns : List Column) : Prop :=
  ∀ st ∈ issued, st.table = name → st.Fits columns

instance (name : Bytes) (columns : List Column) : Decidable (Fits name columns) :=
  inferInstanceAs (Decidable (∀ _ ∈ _, _))

/-- The schema has a table of the name that serves every statement on it. -/
def FitsAt (schema : Schema) (name : Bytes) : Prop :=
  ∃ t, schema name = some t ∧ Fits name t.columns

/-- The tables of the statements. -/
def issuedTables : List Bytes :=
  [ascii "tab_user", ascii "tab_videoData", ascii "tab_audioData", ascii "tab_textData",
    ascii "tab_browseRecords", ascii "tab_assetsCollect"]

theorem serves_iff {schema : Schema} : Serves schema ↔ ∀ name ∈ issuedTables, FitsAt schema name := by
  have htables : ∀ st ∈ issued, st.table ∈ issuedTables := by decide +kernel
  have hissued : ∀ name ∈ issuedTables, ∃ st ∈ issued, st.table = name := by decide +kernel
  constructor
  · intro h name hname
    obtain ⟨st, hst, rfl⟩ := hissued name hname
    obtain ⟨t, ht, -⟩ := h st hst
    refine ⟨t, ht, fun st' hst' htable => ?_⟩
    obtain ⟨t', ht', hfits⟩ := h st' hst'
    rw [htable, ht] at ht'
    cases ht'
    exact hfits
  · intro h st hst
    obtain ⟨t, ht, hfits⟩ := h st.table (htables st hst)
    exact ⟨t, ht, hfits st hst rfl⟩

/-! ## What a visit means for the statements -/

open MySqlManager

/-- Every `insert` into the table supplies the column. -/
def Supplied (table column : Bytes) : Prop :=
  ∀ st ∈ issued, st.table = table → st.supplies = true → column ∈ st.names

instance (table column : Bytes) : Decidable (Supplied table column) :=
  inferInstanceAs (Decidable (∀ _ ∈ _, _))

/-- The columns after a change: the one that is changed, and the others as they were. -/
theorem mem_modify_iff {t : TableSchema} {c c' : Column} (hname : c.name ∈ t.names) :
    c' ∈ (t.modify c).columns ↔ c' = c ∨ (c' ∈ t.columns ∧ c'.name ≠ c.name) := by
  have hmem : c' ∈ (t.modify c).columns ↔
      ∃ d ∈ t.columns, (if d.name = c.name then c else d) = c' := List.mem_map
  rw [hmem]
  constructor
  · rintro ⟨d, hd, rfl⟩
    split
    · exact Or.inl rfl
    · next hne => exact Or.inr ⟨hd, hne⟩
  · rintro (rfl | ⟨hc', hne⟩)
    · obtain ⟨d, hd, hdname⟩ := List.mem_map.1 hname
      exact ⟨d, hd, if_pos hdname⟩
    · exact ⟨c', hc', if_neg hne⟩

theorem names_modify (t : TableSchema) (c : Column) : (t.modify c).names = t.names := by
  unfold TableSchema.names TableSchema.modify
  rw [List.map_map]
  refine List.map_congr_left fun d _ => ?_
  rw [Function.comp_apply]
  split
  · next h => exact h.symm
  · rfl

/-- A column that is changed has to be supplied, unless a value is not required. -/
theorem fits_modify_iff {name : Bytes} {t : TableSchema} {c : Column} (hname : c.name ∈ t.names)
    (hc : Supplied name c.name ∨ c.required = true) :
    Fits name (t.modify c).columns ↔ Fits name t.columns ∧ Supplied name c.name := by
  have hnames : (t.modify c).columns.map Column.name = t.columns.map Column.name := names_modify t c
  constructor
  · intro h
    have hsupplied : Supplied name c.name := by
      rcases hc with hsupplied | hrequired
      · exact hsupplied
      · intro st hst htable hsupplies
        exact (h st hst htable).2 hsupplies c ((mem_modify_iff hname).2 (Or.inl rfl)) hrequired
    refine ⟨fun st hst htable => ?_, hsupplied⟩
    obtain ⟨hnamed, hothers⟩ := h st hst htable
    rw [hnames] at hnamed
    refine ⟨hnamed, fun hsupplies d hd hrequired => ?_⟩
    by_cases hd' : d.name = c.name
    · rw [hd']
      exact hsupplied st hst htable hsupplies
    · exact hothers hsupplies d ((mem_modify_iff hname).2 (Or.inr ⟨hd, hd'⟩)) hrequired
  · rintro ⟨h, hsupplied⟩ st hst htable
    obtain ⟨hnamed, hothers⟩ := h st hst htable
    rw [← hnames] at hnamed
    refine ⟨hnamed, fun hsupplies d hd hrequired => ?_⟩
    rcases (mem_modify_iff hname).1 hd with rfl | ⟨hd, -⟩
    · exact hsupplied st hst htable hsupplies
    · exact hothers hsupplies d hd hrequired

/-- The tables that are created serve the statements, but for `tab_assetsCollect`. -/
theorem fits_columns_iff : ∀ p ∈ mapTable, Fits p.1 (columns p.2) ↔ p.1 ≠ ascii "tab_assetsCollect" := by
  decide +kernel

/-- A declared column is supplied, or belongs to `tab_assetsCollect` and must be. -/
theorem supplied_or : ∀ p ∈ mapTable, ∀ f ∈ p.2.mapField, Supplied p.1 f.1 ∨
    (p.1 = ascii "tab_assetsCollect" ∧ f.2.column.any Column.required = true) := by
  decide +kernel

/-- The table serves the statements after a visit. -/
def Ready (p : Bytes × TableInfo) (v : Visit) : Option TableSchema → Prop
  | none => p.1 ≠ ascii "tab_assetsCollect"
  | some t => Fits p.1 t.columns ∧ ∀ field, altered p.2 v t = some field → Supplied p.1 field.sName

/-- **A table serves the statements after a visit exactly when it was ready.** -/
theorem fits_iff_ready {p : Bytes × TableInfo} (hp : p ∈ mapTable) {v : Visit}
    {before : Option TableSchema} {t : TableSchema} (h : Outcome p.2 v before t) :
    Fits p.1 t.columns ↔ Ready p v before := by
  cases h with
  | created _ hcolumns =>
    rw [hcolumns]
    exact fits_columns_iff p hp
  | kept _ hkept => simp [Ready, hkept]
  | altered t name field c haltered hfield hname hcolumn =>
    obtain ⟨hfname, hcname⟩ := (readable_mapTable p hp).2.named _ hfield
    rw [hcolumn] at hcname
    obtain rfl : c.name = name := Option.some.inj hcname
    have hc : Supplied p.1 c.name ∨ c.required = true := by
      refine (supplied_or p hp _ hfield).imp_right fun h => ?_
      simpa [hcolumn] using h.2
    rw [fits_modify_iff hname hc, Ready, haltered]
    have hsName : field.sName = c.name := hfname
    simp [hsName]

/-- The tables but `tab_assetsCollect` are ready if they are not there or serve the statements. -/
theorem ready_iff {p : Bytes × TableInfo} (hp : p ∈ mapTable) (hne : p.1 ≠ ascii "tab_assetsCollect")
    {v : Visit} {before : Option TableSchema} :
    Ready p v before ↔ ∀ t, before = some t → Fits p.1 t.columns := by
  cases before with
  | none => exact iff_of_true hne nofun
  | some t =>
    have hsupplied : ∀ field, altered p.2 v t = some field → Supplied p.1 field.sName := by
      intro field haltered
      obtain ⟨name, hfield⟩ := mem_of_altered haltered
      have hname : field.sName = name := ((readable_mapTable p hp).2.named _ hfield).1
      rw [hname]
      exact (supplied_or p hp _ hfield).resolve_right fun h => hne h.1
    rw [Ready, and_iff_left hsupplied]
    simp

/-- `tab_assetsCollect` is ready if it is there, serves the statements and is not made to require a
column that they do not supply. -/
theorem ready_collect_iff {info : TableInfo} {v : Visit} {schema : Schema} :
    Ready (ascii "tab_assetsCollect", info) v (schema (ascii "tab_assetsCollect")) ↔
      FitsAt schema (ascii "tab_assetsCollect") ∧
        ∀ t field, schema (ascii "tab_assetsCollect") = some t → altered info v t = some field →
          Supplied (ascii "tab_assetsCollect") field.sName := by
  cases ht : schema (ascii "tab_assetsCollect") with
  | none => exact iff_of_false (fun h => h rfl) (by simp [FitsAt, ht])
  | some t =>
    constructor
    · rintro ⟨hfits, hunaltered⟩
      refine ⟨⟨t, ht, hfits⟩, fun t' field ht' => ?_⟩
      cases ht'
      exact hunaltered field
    · rintro ⟨⟨t', ht', hfits⟩, hunaltered⟩
      cases ht.symm.trans ht'
      exact ⟨hfits, fun field => hunaltered t field rfl⟩

/-! ## `Init` -/

/-- The declaration of a table. -/
def declaration (name : Bytes) : TableInfo := (mapTable.lookup name).getD {}

/-- The schema before `Init` is prepared for the statements: the table of texts is there and serves them,
and so is that of the favourites, which is not changed to require one of the columns left over from the
texts; the other tables serve them if they are there. -/
structure Prepared (start : Start) (schema : Schema) : Prop where
  text : FitsAt schema (ascii "tab_textData")
  collect : FitsAt schema (ascii "tab_assetsCollect")
  unaltered : ∀ t field, schema (ascii "tab_assetsCollect") = some t →
    altered (declaration (ascii "tab_assetsCollect")) (start.table (ascii "tab_assetsCollect")) t =
      some field → Supplied (ascii "tab_assetsCollect") field.sName
  others : ∀ name ∈ [ascii "tab_user", ascii "tab_videoData", ascii "tab_audioData",
    ascii "tab_browseRecords"], ∀ t, schema name = some t → Fits name t.columns

/-- What `Init` leaves when it returns `true`. -/
theorem of_init {start : Start} {schema schema' : Schema}
    (h : MySqlManager.init start schema = some (true, schema')) :
    (∀ name, name ∉ mapTable.map Prod.fst → schema' name = schema name) ∧
      ∀ p ∈ mapTable, FitsAt schema' p.1 ↔ Ready p (start.table p.1) (schema p.1) := by
  unfold MySqlManager.init at h
  split at h
  · cases h
  split at h
  · cases h
  obtain ⟨info, hinfo, h⟩ := Option.bind_eq_some_iff.1 h
  obtain ⟨⟨ok, schema₁⟩, hvisit, h⟩ := Option.bind_eq_some_iff.1 h
  cases ok with
  | false => cases h
  | true =>
    have huser : (ascii "tab_user", info) ∈ mapTable := by
      obtain ⟨before, behind, heq, -⟩ := List.lookup_eq_some_iff.1 hinfo
      rw [heq]
      exact List.mem_append_right _ List.mem_cons_self
    have hne : ascii "tab_user" ≠ ascii "tab_assetsCollect" := by decide
    obtain ⟨hsName, hreadable⟩ := readable_mapTable _ huser
    obtain ⟨hothers, t₁, ht₁, houtcome₁⟩ := of_visitTable hreadable hvisit
    rw [show info.sName = ascii "tab_user" from hsName] at hothers ht₁ houtcome₁
    obtain ⟨hrest, htables⟩ := of_visitTables readable_mapTable (by decide +kernel) h
    constructor
    · intro name hname
      rw [hrest name hname]
      refine hothers name fun heq => hname ?_
      rw [heq]
      exact List.mem_map_of_mem huser
    · intro p hp
      obtain ⟨t, ht, houtcome⟩ := htables p hp
      have hfits : FitsAt schema' p.1 ↔ Ready p (start.table p.1) (schema₁ p.1) := by
        rw [← fits_iff_ready hp houtcome, FitsAt, ht]
        simp
      rw [hfits]
      by_cases hp' : p.1 = ascii "tab_user"
      · -- the first visit has left the table as ready as it was
        have hready := (fits_iff_ready huser houtcome₁).trans (ready_iff huser hne)
        rw [ready_iff hp (hp' ▸ hne), ready_iff hp (hp' ▸ hne), hp', ht₁, ← hready]
        simp
      · rw [hothers p.1 hp']

/-- **When `Init` returns `true`, the schema serves the issued statements exactly if it was prepared for
them.** -/
theorem serves_iff_prepared {start : Start} {schema schema' : Schema}
    (h : MySqlManager.init start schema = some (true, schema')) :
    Serves schema' ↔ Prepared start schema := by
  obtain ⟨hrest, htables⟩ := of_init h
  have hcollect : (ascii "tab_assetsCollect", declaration (ascii "tab_assetsCollect")) ∈ mapTable := by
    decide +kernel
  have hothers : ∀ name ∈ [ascii "tab_user", ascii "tab_videoData", ascii "tab_audioData",
      ascii "tab_browseRecords"], (name, declaration name) ∈ mapTable ∧
        name ≠ ascii "tab_assetsCollect" := by
    decide +kernel
  have htext : schema' (ascii "tab_textData") = schema (ascii "tab_textData") :=
    hrest _ (by decide +kernel)
  have hother : ∀ name ∈ [ascii "tab_user", ascii "tab_videoData", ascii "tab_audioData",
      ascii "tab_browseRecords"],
      (FitsAt schema' name ↔ ∀ t, schema name = some t → Fits name t.columns) := by
    intro name hname
    obtain ⟨hdeclared, hne⟩ := hothers name hname
    exact (htables _ hdeclared).trans (ready_iff hdeclared hne)
  have hcollects := (htables _ hcollect).trans ready_collect_iff
  rw [serves_iff]
  constructor
  · intro hserves
    have htexts := hserves (ascii "tab_textData") (by decide +kernel)
    rw [FitsAt, htext] at htexts
    obtain ⟨hfits, hunaltered⟩ := hcollects.1 (hserves _ (by decide +kernel))
    refine ⟨htexts, hfits, hunaltered, fun name hname => (hother name hname).1 (hserves name ?_)⟩
    revert name
    decide +kernel
  · intro hprepared name hname
    have hcases : name = ascii "tab_textData" ∨ name = ascii "tab_assetsCollect" ∨
        name ∈ [ascii "tab_user", ascii "tab_videoData", ascii "tab_audioData",
          ascii "tab_browseRecords"] := by
      revert name
      decide +kernel
    rcases hcases with rfl | rfl | hname
    · rw [FitsAt, htext]
      exact hprepared.text
    · exact hcollects.2 ⟨hprepared.collect, hprepared.unaltered⟩
    · exact (hother name hname).2 (hprepared.others name hname)

/-! ## An empty database -/

/-- MySQL carries out every statement that it can read. -/
def willing : Visit := ⟨true, true, fun _ => true, true⟩

/-- On an empty database `Init` returns `true`, and there is no table for the texts. -/
theorem not_serves_empty :
    ∃ schema', MySqlManager.init ⟨true, true, true, willing, fun _ => willing⟩ (fun _ => none) =
      some (true, schema') ∧ ¬ Serves schema' := by
  have hinit : (MySqlManager.init ⟨true, true, true, willing, fun _ => willing⟩ (fun _ => none)).map
      Prod.fst = some true := by
    decide +kernel
  obtain ⟨⟨ok, schema'⟩, h, rfl⟩ := Option.map_eq_some_iff.1 hinit
  refine ⟨schema', h, fun hserves => ?_⟩
  obtain ⟨t, ht, -⟩ := serves_iff.1 hserves (ascii "tab_textData") (by decide +kernel)
  rw [(of_init h).1 _ (by decide +kernel)] at ht
  cases ht

/-- The columns of a table of texts. -/
def textColumns (names : List String) : List Column :=
  names.map fun name => ⟨ascii name, ascii "varchar(64)", true, false⟩

/-- A database with a table for the texts, and favourites without the columns of the texts. -/
def preparedSchema : Schema := fun name =>
  if name = ascii "tab_textData" then
    some ⟨textColumns ["t_id", "t_upName", "t_title", "t_courses", "t_data", "t_uID"], by decide⟩
  else if name = ascii "tab_assetsCollect" then
    some ⟨textColumns ["c_id", "c_uID", "c_assetsType", "c_assetsTitle"], by decide⟩
  else none

theorem serves_prepared :
    ∃ schema', MySqlManager.init ⟨true, true, true, willing, fun _ => willing⟩ preparedSchema =
      some (true, schema') ∧ Serves schema' := by
  have hinit : (MySqlManager.init ⟨true, true, true, willing, fun _ => willing⟩ preparedSchema).map
      Prod.fst = some true := by
    decide +kernel
  obtain ⟨⟨ok, schema'⟩, h, rfl⟩ := Option.map_eq_some_iff.1 hinit
  refine ⟨schema', h, (serves_iff_prepared h).2 ⟨⟨_, rfl, by decide +kernel⟩,
    ⟨_, rfl, by decide +kernel⟩, fun t field ht haltered => ?_, fun name hname t ht => ?_⟩⟩
  · cases ht
    have hnone : altered (declaration (ascii "tab_assetsCollect")) willing
        ⟨textColumns ["c_id", "c_uID", "c_assetsType", "c_assetsTitle"], by decide⟩ = none := by
      decide +kernel
    cases hnone.symm.trans haltered
  · have habsent : ∀ name ∈ [ascii "tab_user", ascii "tab_videoData", ascii "tab_audioData",
        ascii "tab_browseRecords"], (preparedSchema name).isNone = true := by
      decide +kernel
    rw [Option.isNone_iff_eq_none.1 (habsent name hname)] at ht
    cases ht

end GraduationServer
