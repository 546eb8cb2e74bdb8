import GraduationServer.Database.Schema

/-!
# What a visit does to a table

A visit of `Init` that succeeds creates the table if it is not there. Otherwise it leaves it alone, but
for one column that gets its declared definition when all declared columns are there and this one is the
last of them and differs (`of_visitTable`). No column is ever added: MySQL reads the misspelt `colum` as
the name of a column and the name of the column as a type.
-/

namespace GraduationServer

/-- The column that MySQL makes of a declared field. -/
def FieldInfo.column (f : FieldInfo) : Option Column := readColumn (f.sName :: words f.sType)

namespace MySqlManager

/-! ## Texts -/

/-- The columns of a table that is created from its declaration. -/
def columns (info : TableInfo) : List Column := info.mapField.filterMap fun f => f.2.column

/-- How MySQL reads the statements about a declared table: the one that would add a column is refused. -/
structure Readable (info : TableInfo) : Prop where
  declared : info.mapField ≠ []
  created : (readCreate (createText info)).map (fun r => (r.1, r.2.columns)) =
    some (info.sName, columns info)
  added : ∀ f ∈ info.mapField, readCreate (addText info f.2) = none ∧ readAlter (addText info f.2) = none
  modified : ∀ f ∈ info.mapField, readCreate (modifyText info f.2) = none ∧
    readAlter (modifyText info f.2) = f.2.column.map (.modify info.sName)
  named : ∀ f ∈ info.mapField, f.2.sName = f.1 ∧ f.2.column.map Column.name = some f.1

/-- The declarations are read so. -/
theorem readable_mapTable : ∀ p ∈ mapTable, p.2.sName = p.1 ∧ Readable p.2 := by
  have hnames : ∀ p ∈ mapTable, p.2.sName = p.1 := by decide +kernel
  have hdeclared : ∀ p ∈ mapTable, p.2.mapField ≠ [] := by decide +kernel
  have hcreated : ∀ p ∈ mapTable, (readCreate (createText p.2)).map (fun r => (r.1, r.2.columns)) =
      some (p.2.sName, columns p.2) := by
    decide +kernel
  have hadded : ∀ p ∈ mapTable, ∀ f ∈ p.2.mapField,
      readCreate (addText p.2 f.2) = none ∧ readAlter (addText p.2 f.2) = none := by
    decide +kernel
  have hmodified : ∀ p ∈ mapTable, ∀ f ∈ p.2.mapField, readCreate (modifyText p.2 f.2) = none ∧
      readAlter (modifyText p.2 f.2) = f.2.column.map (.modify p.2.sName) := by
    decide +kernel
  have hnamed : ∀ p ∈ mapTable, ∀ f ∈ p.2.mapField,
      f.2.sName = f.1 ∧ f.2.column.map Column.name = some f.1 := by
    decide +kernel
  exact fun p hp => ⟨hnames p hp, hdeclared p hp, hcreated p hp, hadded p hp, hmodified p hp,
    hnamed p hp⟩

/-! ## Creating, adding and changing -/

variable {info : TableInfo} {v : Visit} {schema schema' : Schema}

/-- `CreateTable` does nothing when the table is there. -/
theorem of_createTable (h : Readable info) {ok : Bool}
    (hcreate : createTable info ok schema = some schema') :
    ∃ t, t.columns = columns info ∧
      schema' = if (schema info.sName).isSome then schema else schema.set info.sName t := by
  rw [createTable, if_neg h.declared, Schema.execute] at hcreate
  obtain ⟨⟨name, t⟩, hread, heq⟩ := Option.map_eq_some_iff.1 h.created
  obtain ⟨hname, hcolumns⟩ := Prod.mk.inj heq
  obtain rfl : name = info.sName := hname
  split at hcreate
  · rw [hread] at hcreate
    exact ⟨t, hcolumns, (Option.some.inj hcreate).symm⟩
  · cases hcreate

/-- What is not seen by the loop is declared, and what differs is declared and there. -/
theorem of_scan {mapField rest rest' : List (Bytes × FieldInfo)} {rows : List (Bytes × Bytes)}
    {mapChange : List FieldInfo} (h : scan mapField rows rest = some (rest', mapChange)) :
    rest' ⊆ rest ∧ (mapChange = [] ∨ ∃ name field, mapChange = [field] ∧ (name, field) ∈ mapField ∧
      name ∈ rows.map Prod.fst) := by
  induction rows generalizing rest with
  | nil =>
    cases h
    exact ⟨List.Subset.refl _, Or.inl rfl⟩
  | cons row rows ih =>
    obtain ⟨name, type⟩ := row
    unfold scan at h
    split at h
    · cases h
    · next field hfield =>
      have hrest : (rest.filter fun f => f.1 ≠ name) ⊆ rest := fun f hf => List.mem_of_mem_filter hf
      dsimp only at h
      split at h
      · obtain ⟨hsub, hchange⟩ := ih h
        refine ⟨List.Subset.trans hsub hrest, hchange.imp_right ?_⟩
        rintro ⟨name', field', heq, hmem, hname'⟩
        exact ⟨name', field', heq, hmem, List.mem_cons_of_mem _ hname'⟩
      · cases h
        refine ⟨hrest, Or.inr ⟨name, field, rfl, ?_, List.mem_cons_self⟩⟩
        obtain ⟨before, behind, heq, -⟩ := List.lookup_eq_some_iff.1 hfield
        rw [heq]
        exact List.mem_append_right _ List.mem_cons_self

/-- The column whose definition a visit changes: all declared columns are there, it is the one that
differs, and MySQL carries out the statement. -/
def altered (info : TableInfo) (v : Visit) (t : TableSchema) : Option FieldInfo :=
  if v.desc then
    match scan info.mapField (t.columns.map fun c => (c.name, c.type)) info.mapField with
    | some ([], [field]) => if v.alter (modifyText info field) then some field else none
    | _ => none
  else none

theorem mem_of_altered {t : TableSchema} {field : FieldInfo} (h : altered info v t = some field) :
    ∃ name, (name, field) ∈ info.mapField := by
  unfold altered at h
  split at h
  · split at h
    · next hscan =>
      obtain ⟨-, hchange⟩ := of_scan hscan
      split at h
      · cases h
        rcases hchange with hnil | ⟨name, field', heq, hmem, -⟩
        · cases hnil
        · cases heq
          exact ⟨name, hmem⟩
      · cases h
    · cases h
  · cases h

/-- What a visit that succeeds makes of a table: one that is not there is created, and of one that is
there at most one column is changed. -/
inductive Outcome (info : TableInfo) (v : Visit) : Option TableSchema → TableSchema → Prop
  | created (t : TableSchema) (hcolumns : t.columns = columns info) : Outcome info v none t
  | kept (t : TableSchema) (hkept : altered info v t = none) : Outcome info v (some t) t
  | altered (t : TableSchema) (name : Bytes) (field : FieldInfo) (c : Column)
    (haltered : altered info v t = some field) (hfield : (name, field) ∈ info.mapField)
    (hname : name ∈ t.names) (hcolumn : field.column = some c) : Outcome info v (some t) (t.modify c)

/-- The other tables stay as they are. -/
structure Visited (info : TableInfo) (v : Visit) (schema schema' : Schema) : Prop where
  others : ∀ name, name ≠ info.sName → schema' name = schema name
  table : ∃ t, schema' info.sName = some t ∧ Outcome info v (schema info.sName) t

theorem Outcome.visited {t : TableSchema} (h : Outcome info v (schema info.sName) t) :
    Visited info v schema (schema.set info.sName t) where
  others _ hne := if_neg hne
  table := ⟨t, if_pos rfl, h⟩

theorem visited_self {t : TableSchema} (ht : schema info.sName = some t)
    (hkept : altered info v t = none) : Visited info v schema schema where
  others _ _ := rfl
  table := ⟨t, ht, ht ▸ .kept t hkept⟩

/-- A table that is created or was there. -/
theorem visited_of_createTable (h : Readable info) {ok : Bool}
    (hcreate : createTable info ok schema = some schema')
    (hkept : ∀ t, schema info.sName = some t → altered info v t = none) :
    Visited info v schema schema' := by
  obtain ⟨t, hcolumns, rfl⟩ := of_createTable h hcreate
  cases htable : schema info.sName with
  | none => exact Outcome.visited (htable ▸ .created t hcolumns)
  | some t' => exact visited_self htable (hkept t' htable)

/-- No column is added. -/
theorem execute_addText (h : Readable info) {f : Bytes × FieldInfo} (hf : f ∈ info.mapField) (ok : Bool) :
    schema.execute (addText info f.2) ok = none := by
  obtain ⟨hcreate, halter⟩ := h.added f hf
  rw [Schema.execute, hcreate, halter]
  split <;> rfl

/-- A declared column that is there is changed if MySQL carries out the statement. -/
theorem execute_modifyText (h : Readable info) {f : Bytes × FieldInfo} (hf : f ∈ info.mapField)
    {t : TableSchema} (ht : schema info.sName = some t) (hname : f.1 ∈ t.names) (ok : Bool) :
    ∃ c, f.2.column = some c ∧ schema.execute (modifyText info f.2) ok =
      if ok then some (schema.set info.sName (t.modify c)) else none := by
  obtain ⟨hcreate, halter⟩ := h.modified f hf
  obtain ⟨c, hc, hcname⟩ := Option.map_eq_some_iff.1 (h.named f hf).2
  rw [hc] at halter
  refine ⟨c, hc, ?_⟩
  rw [Schema.execute, hcreate, halter]
  have hmem : t.names.contains c.name = true := List.contains_iff_mem.2 (hcname ▸ hname)
  simp only [Schema.alter, ht, hmem, Option.map_some, Option.bind_some, if_true]

/-- A check that succeeds has visited the table; one that fails has changed nothing. -/
def Checked (info : TableInfo) (v : Visit) (schema : Schema) (ok : Bool) (schema' : Schema) : Prop :=
  (ok = true ∧ Visited info v schema schema') ∨
    (ok = false ∧ schema' = schema ∧ ∀ t, schema info.sName = some t → altered info v t = none)

/-- Without an answer to `desc` a check creates the table, if it is not there. -/
theorem checked_of_desc (h : Readable info) (hdesc : schema.desc info.sName v.desc = none) {ok : Bool}
    (hcheck : checkTable info v schema = some (ok, schema')) : Checked info v schema ok schema' := by
  have haltered : ∀ t, schema info.sName = some t → altered info v t = none := by
    intro t ht
    rw [Schema.desc, ht] at hdesc
    cases hv : v.desc with
    | false => rw [altered, if_neg (by simp [hv])]
    | true =>
      rw [hv] at hdesc
      cases hdesc
  unfold checkTable at hcheck
  rw [hdesc] at hcheck
  dsimp only at hcheck
  split at hcheck
  · cases hcheck
    exact Or.inr ⟨rfl, rfl, haltered⟩
  · next hcreate =>
    cases hcheck
    exact Or.inl ⟨rfl, visited_of_createTable h hcreate haltered⟩

/-- A column that differs is changed, if MySQL carries out the statement. -/
theorem checked_of_modify (h : Readable info) {t : TableSchema} (ht : schema info.sName = some t)
    (hv : v.desc = true) {name : Bytes} {field : FieldInfo}
    (hscan : scan info.mapField (t.columns.map fun c => (c.name, c.type)) info.mapField =
      some ([], [field])) (hfield : (name, field) ∈ info.mapField) (hname : name ∈ t.names) {ok : Bool}
    (hcheck : alterColumns (modifyText info) v.alter [field] schema = (ok, schema')) :
    Checked info v schema ok schema' := by
  obtain ⟨c, hc, hexecute⟩ := execute_modifyText h hfield ht hname (v.alter (modifyText info field))
  rw [alterColumns, hexecute] at hcheck
  cases halter : v.alter (modifyText info field) with
  | false =>
    rw [halter] at hcheck
    cases hcheck
    refine Or.inr ⟨rfl, rfl, fun t' ht' => ?_⟩
    cases ht.symm.trans ht'
    simp only [altered, hv, hscan, halter, if_true, Bool.false_eq_true, if_false]
  | true =>
    rw [halter] at hcheck
    cases hcheck
    refine Or.inl ⟨rfl, Outcome.visited (ht ▸ .altered t name field c ?_ hfield hname hc)⟩
    simp only [altered, hv, hscan, halter, if_true]

theorem of_checkTable (h : Readable info) {ok : Bool}
    (hcheck : checkTable info v schema = some (ok, schema')) : Checked info v schema ok schema' := by
  cases hdesc : schema.desc info.sName v.desc with
  | none => exact checked_of_desc h hdesc hcheck
  | some rows =>
    obtain ⟨hv, hdesc'⟩ := Option.ite_none_right_eq_some.1 hdesc
    obtain ⟨t, ht, rfl⟩ := Option.map_eq_some_iff.1 hdesc'
    unfold checkTable at hcheck
    rw [hdesc] at hcheck
    obtain ⟨⟨rest, mapChange⟩, hscan, hcheck⟩ := Option.map_eq_some_iff.1 hcheck
    obtain ⟨hrest, hchange⟩ := of_scan hscan
    cases rest with
    | cons f rest =>
      -- the statement that would add the first of them is refused
      have hadd := @execute_addText info schema h f (hrest List.mem_cons_self)
        (v.alter (addText info f.2))
      simp only [List.map_cons, alterColumns, hadd] at hcheck
      cases hcheck
      refine Or.inr ⟨rfl, rfl, fun t' ht' => ?_⟩
      cases ht.symm.trans ht'
      simp only [altered, hv, hscan, if_true]
    | nil =>
      rcases hchange with rfl | ⟨name, field, rfl, hfield, hname⟩
      · cases hcheck
        refine Or.inl ⟨rfl, visited_self ht ?_⟩
        simp only [altered, hv, hscan, if_true]
      · rw [List.map_map] at hname
        exact checked_of_modify h ht hv hscan hfield hname hcheck

/-- **A visit that succeeds** creates a table that is not there, and changes at most one column of one
that is there. -/
theorem of_visitTable (h : Readable info) (hvisit : visitTable info v schema = some (true, schema')) :
    Visited info v schema schema' := by
  obtain ⟨⟨ok, schema₁⟩, hcheck, hdone⟩ := Option.bind_eq_some_iff.1 hvisit
  dsimp only at hdone
  rcases of_checkTable h hcheck with ⟨rfl, hvisited⟩ | ⟨rfl, rfl, hkept⟩
  · cases hdone
    exact hvisited
  · rw [if_neg Bool.false_ne_true] at hdone
    split at hdone
    · cases hdone
    · next hcreate =>
      cases hdone
      exact visited_of_createTable h hcreate hkept

/-! ## The visits of `Init` -/

/-- **Every declared table is visited once**, by induction on the tables. -/
theorem of_visitTables {visits : Bytes → Visit} {tables : List (Bytes × TableInfo)}
    (h : ∀ p ∈ tables, p.2.sName = p.1 ∧ Readable p.2) (hnodup : (tables.map Prod.fst).Nodup)
    (hvisits : visitTables visits tables schema = some (true, schema')) :
    (∀ name, name ∉ tables.map Prod.fst → schema' name = schema name) ∧
      ∀ p ∈ tables, ∃ t, schema' p.1 = some t ∧ Outcome p.2 (visits p.1) (schema p.1) t := by
  induction tables generalizing schema with
  | nil =>
    cases hvisits
    exact ⟨fun _ _ => rfl, nofun⟩
  | cons p tables ih =>
    obtain ⟨name, info⟩ := p
    obtain ⟨hinfo, htables⟩ := List.forall_mem_cons.1 h
    obtain ⟨hnot, hrest⟩ := List.nodup_cons.1 hnodup
    obtain ⟨⟨ok, schema₁⟩, hvisit, hmore⟩ := Option.bind_eq_some_iff.1 hvisits
    cases ok with
    | false => cases hmore
    | true =>
      obtain ⟨hname, hreadable⟩ := hinfo
      obtain rfl : info.sName = name := hname
      have hvisited := of_visitTable hreadable hvisit
      obtain ⟨hothers, hlater⟩ := ih htables hrest hmore
      constructor
      · intro n hn
        obtain ⟨hne, hn⟩ := not_or.1 (List.mem_cons.not.1 hn)
        rw [hothers n hn, hvisited.others n hne]
      · intro q hq
        rcases List.mem_cons.1 hq with rfl | hq
        · obtain ⟨t, ht, houtcome⟩ := hvisited.table
          exact ⟨t, (hothers _ hnot).trans ht, houtcome⟩
        · obtain ⟨t, ht, houtcome⟩ := hlater q hq
          have hne : q.1 ≠ info.sName := fun heq => hnot (List.mem_map.2 ⟨q, hq, heq⟩)
          rw [hvisited.others _ hne] at houtcome
          exact ⟨t, ht, houtcome⟩

end MySqlManager

end GraduationServer
