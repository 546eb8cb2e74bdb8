import GraduationServer.Database.Schema
import GraduationServer.Database.Table
import GraduationServer.Foundations.Loops

/-!
# The repair of a table

The loop of `CheckTable` over the rows of `desc`, round by round, and the statements it issues for what
the loop found.

* `ends_checkStep_iff` says when the loop ends. A column that is not declared is looked at for ever, as
  its `continue` skips the call of `NextRow`, unless the loop has been left before at a declared column
  that differs.
* `repaired_iff` says when the statements are those the table needs. The loop is left at the first
  column that differs, so the columns behind it count as missing, and those that differ behind it are
  not changed.
-/

namespace GraduationServer

namespace MySqlManager

/-! ## The loop -/

/-- A row of `desc`, of which the loop reads the name and the type. -/
def descRow (row : Bytes × Bytes) : Row := [some row.1, some row.2]

/-- The variables of the loop. -/
structure Check where
  result : QueryResult
  rest : List (Bytes × FieldInfo)
  mapChange : List FieldInfo

/-- The loop is entered with the first row of the result. -/
def Check.start (mapField : List (Bytes × FieldInfo)) (rows : List (Bytes × Bytes)) : Check where
  result := QueryResult.new [ascii "Field", ascii "Type"] (rows.map descRow)
  rest := mapField
  mapChange := []

/-- One round of the loop. `pRow` points to the current row. -/
def checkStep (mapField : List (Bytes × FieldInfo)) (s : Check) : Check ⊕ Check :=
  let name := s.result.currentRow.getD 0 []
  let type := s.result.currentRow.getD 1 []
  match mapField.lookup name with
  | none => .inl s
  | some field =>
    let s := { s with rest := s.rest.filter fun f => f.1 ≠ name }
    if contains type field.sDesc then
      match s.result.nextRow with
      | none => .inr s
      | some result => .inl { s with result }
    else .inr { s with mapChange := s.mapChange ++ [field] }

/-- The column is not declared. -/
def Undeclared (mapField : List (Bytes × FieldInfo)) (row : Bytes × Bytes) : Prop :=
  mapField.lookup row.1 = none

/-- The column is declared, with a description in which its type does not occur. -/
def Differs (mapField : List (Bytes × FieldInfo)) (row : Bytes × Bytes) : Prop :=
  ∃ field, mapField.lookup row.1 = some field ∧ contains row.2 field.sDesc = false

section Rows

variable (mapField : List (Bytes × FieldInfo)) (row : Bytes × Bytes)

instance : Decidable (Undeclared mapField row) := inferInstanceAs (Decidable (_ = _))

instance : Decidable (Differs mapField row) :=
  decidable_of_iff ((mapField.lookup row.1).any fun field => !contains row.2 field.sDesc) (by
    cases h : mapField.lookup row.1 <;> simp [Differs, h])

end Rows

/-- The variables before a round in which `row` is the current row. -/
def Check.round (row : Bytes × Bytes) (rows : List (Bytes × Bytes)) (rest : List (Bytes × FieldInfo)) :
    Check where
  result := ⟨[ascii "Field", ascii "Type"], [row.1, row.2], rows.map descRow⟩
  rest := rest
  mapChange := []

section Loop

variable {mapField rest : List (Bytes × FieldInfo)} {row : Bytes × Bytes} {rows : List (Bytes × Bytes)}

theorem checkStep_undeclared (h : Undeclared mapField row) :
    checkStep mapField (.round row rows rest) = .inl (.round row rows rest) := by
  have h : mapField.lookup row.1 = none := h
  simp [checkStep, Check.round, h]

theorem checkStep_differs {field : FieldInfo} (hfield : mapField.lookup row.1 = some field)
    (hdiffers : contains row.2 field.sDesc = false) :
    checkStep mapField (.round row rows rest) =
      .inr { Check.round row rows (rest.filter fun f => f.1 ≠ row.1) with mapChange := [field] } := by
  simp [checkStep, Check.round, hfield, hdiffers]

theorem checkStep_last {field : FieldInfo} (hfield : mapField.lookup row.1 = some field)
    (hfits : contains row.2 field.sDesc = true) :
    checkStep mapField (.round row [] rest) =
      .inr (.round row [] (rest.filter fun f => f.1 ≠ row.1)) := by
  simp [checkStep, Check.round, hfield, hfits, QueryResult.nextRow]

theorem checkStep_next {field : FieldInfo} (hfield : mapField.lookup row.1 = some field)
    (hfits : contains row.2 field.sDesc = true) (row' : Bytes × Bytes) :
    checkStep mapField (.round row (row' :: rows) rest) =
      .inl (.round row' rows (rest.filter fun f => f.1 ≠ row.1)) := by
  simp [checkStep, Check.round, hfield, hfits, QueryResult.nextRow, descRow, fieldValue]

theorem scan_cons_of_fits {field : FieldInfo} (hfield : mapField.lookup row.1 = some field)
    (hfits : contains row.2 field.sDesc = true) :
    scan mapField (row :: rows) rest = scan mapField rows (rest.filter fun f => f.1 ≠ row.1) := by
  simp only [scan, hfield, hfits, if_true]

theorem scan_cons_of_differs {field : FieldInfo} (hfield : mapField.lookup row.1 = some field)
    (hdiffers : contains row.2 field.sDesc = false) :
    scan mapField (row :: rows) rest = some (rest.filter fun f => f.1 ≠ row.1, [field]) := by
  simp only [scan, hfield, hdiffers, Bool.false_eq_true, if_false]

/-- The loop leaves behind what `scan` returns, and does not end when `scan` has no result. -/
theorem ends_round_iff (rows : List (Bytes × Bytes)) (row : Bytes × Bytes)
    (rest : List (Bytes × FieldInfo)) (r : List (Bytes × FieldInfo) × List FieldInfo) :
    (∃ s, Ends (checkStep mapField) (.round row rows rest) s ∧ (s.rest, s.mapChange) = r) ↔
      scan mapField (row :: rows) rest = some r := by
  cases hfield : mapField.lookup row.1 with
  | none =>
    have hstuck : ∀ s, ¬ Ends (checkStep mapField) (.round row rows rest) s :=
      fun _ => not_ends_of_stuck (checkStep_undeclared hfield)
    simp [scan, hfield, hstuck]
  | some field =>
    cases hfits : contains row.2 field.sDesc with
    | false =>
      rw [exists_ends_of_inr (checkStep_differs hfield hfits)]
      rw [scan_cons_of_differs hfield hfits, Option.some.injEq]
      rfl
    | true =>
      rw [scan_cons_of_fits hfield hfits]
      cases rows with
      | nil =>
        rw [exists_ends_of_inr (checkStep_last hfield hfits), scan, Option.some.injEq]
        rfl
      | cons row' rows =>
        simp only [ends_of_inl (checkStep_next hfield hfits row')]
        exact ends_round_iff rows row' _ r

/-- The loop ends when `scan` has a result. -/
theorem exists_ends_start_iff :
    (∃ s, Ends (checkStep mapField) (.start mapField (row :: rows)) s) ↔
      (scan mapField (row :: rows) mapField).isSome := by
  rw [Option.isSome_iff_exists]
  constructor
  · rintro ⟨s, hs⟩
    exact ⟨(s.rest, s.mapChange), (ends_round_iff rows row mapField _).1 ⟨s, hs, rfl⟩⟩
  · rintro ⟨r, hr⟩
    obtain ⟨s, hs, -⟩ := (ends_round_iff rows row mapField r).2 hr
    exact ⟨s, hs⟩

end Loop

/-- Each element of one kind stands behind one of another kind: by the first element of the list. -/
theorem forall_behind_cons {α : Type} {P Q : α → Prop} {a : α} {l : List α} :
    (∀ before x behind, a :: l = before ++ x :: behind → P x → ∃ y ∈ before, Q y) ↔
      ¬ P a ∧ (Q a ∨ ∀ before x behind, l = before ++ x :: behind → P x → ∃ y ∈ before, Q y) := by
  constructor
  · intro h
    refine ⟨fun ha => ?_, or_iff_not_imp_left.2 fun hQ before x behind heq hx => ?_⟩
    · obtain ⟨y, hy, -⟩ := h [] a l rfl ha
      cases hy
    · obtain ⟨y, hy, hQy⟩ := h (a :: before) x behind (congrArg (List.cons a) heq) hx
      rcases List.mem_cons.1 hy with rfl | hy
      · exact absurd hQy hQ
      · exact ⟨y, hy, hQy⟩
  · rintro ⟨ha, hor⟩ before x behind heq hx
    cases before with
    | nil =>
      cases heq
      exact absurd hx ha
    | cons _ before =>
      cases heq
      rcases hor with hQ | h
      · exact ⟨a, List.mem_cons_self, hQ⟩
      · obtain ⟨y, hy, hQ⟩ := h before x behind rfl hx
        exact ⟨y, List.mem_cons_of_mem _ hy, hQ⟩

/-- `scan` comes to each row in front of which no column differs, and has no result when it comes to
a column that is not declared. -/
theorem isSome_scan_iff {mapField : List (Bytes × FieldInfo)} {rows : List (Bytes × Bytes)}
    (rest : List (Bytes × FieldInfo)) :
    (scan mapField rows rest).isSome ↔
      ∀ before row behind, rows = before ++ row :: behind → Undeclared mapField row →
        ∃ row' ∈ before, Differs mapField row' := by
  induction rows generalizing rest with
  | nil => simp [scan]
  | cons first rows ih =>
    rw [forall_behind_cons]
    cases hfield : mapField.lookup first.1 with
    | none => simp [scan, Undeclared, hfield]
    | some field =>
      have hdeclared : ¬ Undeclared mapField first := by simp [Undeclared, hfield]
      cases hfits : contains first.2 field.sDesc with
      | false =>
        rw [scan_cons_of_differs hfield hfits]
        exact iff_of_true rfl ⟨hdeclared, Or.inl ⟨field, hfield, hfits⟩⟩
      | true =>
        have hsame : ¬ Differs mapField first := by simp [Differs, hfield, hfits]
        rw [scan_cons_of_fits hfield hfits, ih, and_iff_right hdeclared, or_iff_right hsame]

/-- **When the loop ends:** exactly when each column that is not declared stands behind a declared one
that differs. -/
theorem ends_checkStep_iff (mapField : List (Bytes × FieldInfo)) (row : Bytes × Bytes)
    (rows : List (Bytes × Bytes)) :
    (∃ s, Ends (checkStep mapField) (.start mapField (row :: rows)) s) ↔
      ∀ before r behind, row :: rows = before ++ r :: behind → Undeclared mapField r →
        ∃ r' ∈ before, Differs mapField r' :=
  exists_ends_start_iff.trans (isSome_scan_iff mapField)

/-- A column that somebody has added to `tab_user` is looked at for ever. -/
theorem not_forall_ends_checkStep :
    ¬ ∀ p ∈ mapTable, ∀ row rows,
      ∃ s, Ends (checkStep p.2.mapField) (.start p.2.mapField (row :: rows)) s := by
  intro h
  have huser : ∃ p ∈ mapTable, p.1 = ascii "tab_user" ∧
      ¬ Differs p.2.mapField (ascii "u_id", ascii "varchar(64)") ∧
      Undeclared p.2.mapField (ascii "u_email", ascii "varchar(255)") := by
    decide +kernel
  obtain ⟨p, hp, -, hsame, hundeclared⟩ := huser
  have hends := h p hp (ascii "u_id", ascii "varchar(64)") [(ascii "u_email", ascii "varchar(255)")]
  obtain ⟨row, hrow, hdiffers⟩ := (isSome_scan_iff p.2.mapField).1 (exists_ends_start_iff.1 hends)
    [(ascii "u_id", ascii "varchar(64)")] _ [] rfl hundeclared
  rw [List.mem_singleton.1 hrow] at hdiffers
  exact hsame hdiffers

/-- The declared columns that are not among some rows. -/
def notAmong (rows : List (Bytes × Bytes)) (fields : List (Bytes × FieldInfo)) :
    List (Bytes × FieldInfo) :=
  fields.filter fun f => rows.all fun row => row.1 ≠ f.1

theorem notAmong_nil (fields : List (Bytes × FieldInfo)) : notAmong [] fields = fields :=
  List.filter_eq_self.2 fun _ _ => rfl

theorem notAmong_singleton (row : Bytes × Bytes) (fields : List (Bytes × FieldInfo)) :
    notAmong [row] fields = fields.filter fun f => f.1 ≠ row.1 := by
  refine List.filter_congr fun f _ => ?_
  simp only [List.all_cons, List.all_nil, Bool.and_true, ne_comm]

theorem notAmong_append (rows rows' : List (Bytes × Bytes)) (fields : List (Bytes × FieldInfo)) :
    notAmong (rows ++ rows') fields = notAmong rows' (notAmong rows fields) := by
  unfold notAmong
  rw [List.filter_filter]
  refine List.filter_congr fun f _ => ?_
  rw [List.all_append, Bool.and_comm]

theorem mem_notAmong {rows : List (Bytes × Bytes)} {fields : List (Bytes × FieldInfo)}
    {f : Bytes × FieldInfo} : f ∈ notAmong rows fields ↔ f ∈ fields ∧ ∀ row ∈ rows, row.1 ≠ f.1 := by
  simp only [notAmong, List.mem_filter, List.all_eq_true, decide_eq_true_eq]

/-- The rows of which no column differs are passed by the loop. -/
theorem scan_append {mapField rest : List (Bytes × FieldInfo)} {before rows : List (Bytes × Bytes)}
    (h : ∀ row ∈ before, ¬ Undeclared mapField row ∧ ¬ Differs mapField row) :
    scan mapField (before ++ rows) rest = scan mapField rows (notAmong before rest) := by
  induction before generalizing rest with
  | nil => rw [List.nil_append, notAmong_nil]
  | cons row before ih =>
    obtain ⟨⟨hdeclared, hsame⟩, hbefore⟩ := List.forall_mem_cons.1 h
    cases hfield : mapField.lookup row.1 with
    | none => exact absurd hfield hdeclared
    | some field =>
      have hfits : contains row.2 field.sDesc = true := by
        simpa [Differs, hfield] using hsame
      rw [List.cons_append, scan_cons_of_fits hfield hfits, ih hbefore, ← notAmong_singleton,
        ← notAmong_append, List.singleton_append]

/-! ## The statements -/

/-- The loops that change the columns, with any way of carrying out a statement: one statement for each
column, and the first that fails ends the function. -/
def alterAll {σ : Type} (execute : Bytes → σ → Option σ) (text : FieldInfo → Bytes) :
    List FieldInfo → σ → Bool × σ
  | [], s => (true, s)
  | field :: fields, s =>
    match execute (text field) s with
    | none => (false, s)
    | some s => alterAll execute text fields s

/-- What `CheckTable` does with what the loop over the rows has found. -/
def alterTable {σ : Type} (execute : Bytes → σ → Option σ) (info : TableInfo)
    (rest : List (Bytes × FieldInfo)) (mapChange : List FieldInfo) (s : σ) : Bool × σ :=
  match alterAll execute (addText info) (rest.map Prod.snd) s with
  | (false, s) => (false, s)
  | (true, s) => alterAll execute (modifyText info) mapChange s

/-- What `CheckTable` returns for a table with these columns when every statement succeeds, and the
statements it issues. -/
def issued (info : TableInfo) (rows : List (Bytes × Bytes)) : Option (Bool × List Bytes) :=
  (scan info.mapField rows info.mapField).map fun found =>
    alterTable (fun sql log => some (log ++ [sql])) info found.1 found.2 []

theorem alterAll_execute (text : FieldInfo → Bytes) (ok : Bytes → Bool) (fields : List FieldInfo)
    (schema : Schema) :
    alterAll (fun sql schema => schema.execute sql (ok sql)) text fields schema =
      alterColumns text ok fields schema := by
  induction fields generalizing schema with
  | nil => rfl
  | cons field fields ih =>
    cases h : schema.execute (text field) (ok (text field)) with
    | none => simp only [alterAll, alterColumns, h]
    | some schema' => simp only [alterAll, alterColumns, h, ih]

/-- With the statements of a database these are the changes of `checkTable`. -/
theorem checkTable_of_desc {info : TableInfo} {v : Visit} {schema : Schema}
    {rows : List (Bytes × Bytes)} (h : schema.desc info.sName v.desc = some rows) :
    checkTable info v schema =
      (scan info.mapField rows info.mapField).map fun found =>
        alterTable (fun sql schema => schema.execute sql (v.alter sql)) info found.1 found.2 schema := by
  unfold checkTable
  rw [h]
  refine congrArg (fun f => Option.map f _) (funext fun found => ?_)
  simp only [alterTable, alterAll_execute]
  generalize alterColumns (addText info) v.alter (found.1.map Prod.snd) schema = added
  obtain ⟨ok, schema'⟩ := added
  cases ok <;> rfl

theorem alterAll_log (text : FieldInfo → Bytes) (fields : List FieldInfo) (log : List Bytes) :
    alterAll (fun sql log => some (log ++ [sql])) text fields log = (true, log ++ fields.map text) := by
  induction fields generalizing log with
  | nil => simp [alterAll]
  | cons field fields ih => simp [alterAll, ih]

theorem issued_of_scan {info : TableInfo} {rows : List (Bytes × Bytes)}
    {rest : List (Bytes × FieldInfo)} {mapChange : List FieldInfo}
    (h : scan info.mapField rows info.mapField = some (rest, mapChange)) :
    issued info rows =
      some (true, (rest.map Prod.snd).map (addText info) ++ mapChange.map (modifyText info)) := by
  simp [issued, h, alterTable, alterAll_log]

/-! ## What a table needs -/

/-- The columns of an existing table, all of them declared, in any order and with any types. -/
structure ExistingTable (info : TableInfo) where
  rows : List (Bytes × Bytes)
  nonempty : rows ≠ []
  nodup : (rows.map Prod.fst).Nodup
  declared : ∀ row ∈ rows, ¬ Undeclared info.mapField row

namespace ExistingTable

variable {info : TableInfo}

/-- The declared columns that the table has not. -/
def missing (t : ExistingTable info) : List FieldInfo :=
  (info.mapField.filter fun f => t.rows.all fun row => row.1 ≠ f.1).map Prod.snd

/-- The declared columns that the table has with a type that does not occur in their description. -/
def differing (t : ExistingTable info) : List FieldInfo :=
  (info.mapField.filter fun f =>
    t.rows.any fun row => row.1 = f.1 && !contains row.2 f.2.sDesc).map Prod.snd

/-- `CheckTable` returns `true` and issues one statement for each missing and each differing column,
and no others. -/
def Repaired (t : ExistingTable info) : Prop :=
  ∃ log, issued info t.rows = some (true, log) ∧
    log.Perm (t.missing.map (addText info) ++ t.differing.map (modifyText info))

end ExistingTable

/-! ## Declared columns by their names -/

section Keys

variable {mapField : List (Bytes × FieldInfo)} (hnodup : (mapField.map Prod.fst).Nodup)

include hnodup

theorem lookup_of_mem {f : Bytes × FieldInfo} (hf : f ∈ mapField) :
    mapField.lookup f.1 = some f.2 := by
  obtain ⟨before, behind, rfl⟩ := List.append_of_mem hf
  rw [List.map_append, List.map_cons] at hnodup
  have hdisjoint := (List.nodup_append.1 hnodup).2.2
  refine List.lookup_eq_some_iff.2 ⟨before, behind, rfl, fun p hp => bne_iff_ne.2 ?_⟩
  exact (hdisjoint p.1 (List.mem_map_of_mem hp) f.1 List.mem_cons_self).symm

theorem filter_key {name : Bytes} {field : FieldInfo} (h : mapField.lookup name = some field) :
    (mapField.filter fun f => f.1 = name) = [(name, field)] := by
  obtain ⟨before, behind, rfl, -⟩ := List.lookup_eq_some_iff.1 h
  rw [List.map_append, List.map_cons] at hnodup
  have hdisjoint := List.nodup_append.1 hnodup
  have hbefore : ∀ f ∈ before, f.1 ≠ name := fun f hf =>
    hdisjoint.2.2 f.1 (List.mem_map_of_mem hf) name List.mem_cons_self
  have hbehind : ∀ f ∈ behind, f.1 ≠ name := fun f hf heq =>
    (List.nodup_cons.1 hdisjoint.2.1).1 (List.mem_map.2 ⟨f, hf, heq⟩)
  rw [List.filter_append, List.filter_eq_nil_iff.2 (by simpa using hbefore),
    List.filter_cons_of_pos (by simp), List.filter_eq_nil_iff.2 (by simpa using hbehind),
    List.nil_append]

end Keys

/-! ## Statements by their texts -/

/-- The text adds a column to the table. -/
def Adds (info : TableInfo) (sql : Bytes) : Prop :=
  ascii " alter table " ++ info.sName ++ ascii " add" <+: sql

instance (info : TableInfo) (sql : Bytes) : Decidable (Adds info sql) :=
  inferInstanceAs (Decidable (_ <+: _))

theorem adds_addText (info : TableInfo) (f : FieldInfo) : Adds info (addText info f) := by
  have hadd : ascii " add colum " = ascii " add" ++ ascii " colum " := by decide
  refine ⟨ascii " colum " ++ (f.sName ++ (ascii " " ++ (f.sType ++ ascii ";"))), ?_⟩
  rw [addText, hadd]
  simp only [List.append_assoc]

theorem not_adds_modifyText (info : TableInfo) (f : FieldInfo) :
    ¬ Adds info (modifyText info f) := by
  have hmodify : ascii " modify column " = [0x20, 0x6D] ++ ascii "odify column " := by decide
  have hadd : ascii " add" = [0x20, 0x61, 0x64, 0x64] := by decide
  unfold Adds modifyText
  rw [hmodify, hadd]
  simp only [List.append_assoc, List.prefix_append_right_inj]
  simp

theorem countP_adds (info : TableInfo) (added changed : List FieldInfo) :
    (added.map (addText info) ++ changed.map (modifyText info)).countP (fun sql => Adds info sql) =
      added.length := by
  have hadded : (added.map (addText info)).countP (fun sql => Adds info sql) = added.length := by
    rw [List.countP_eq_length.2, List.length_map]
    simpa using fun f _ => adds_addText info f
  have hchanged : (changed.map (modifyText info)).countP (fun sql => Adds info sql) = 0 := by
    rw [List.countP_eq_zero]
    simpa using fun f _ => not_adds_modifyText info f
  rw [List.countP_append, hadded, hchanged, Nat.add_zero]

/-! ## Which tables are repaired -/

namespace ExistingTable

variable {info : TableInfo} (t : ExistingTable info)

theorem missing_eq : t.missing = (notAmong t.rows info.mapField).map Prod.snd := rfl

theorem passed {before : List (Bytes × Bytes)} (hsub : before ⊆ t.rows)
    (hsame : ∀ row ∈ before, ¬ Differs info.mapField row) :
    ∀ row ∈ before, ¬ Undeclared info.mapField row ∧ ¬ Differs info.mapField row :=
  fun row hrow => ⟨t.declared row (hsub hrow), hsame row hrow⟩

/-- A declared column differs when the table has it with such a type. -/
theorem any_differs_iff (hnodup : (info.mapField.map Prod.fst).Nodup) {f : Bytes × FieldInfo}
    (hf : f ∈ info.mapField) :
    (t.rows.any fun row => row.1 = f.1 && !contains row.2 f.2.sDesc) = true ↔
      ∃ row ∈ t.rows, row.1 = f.1 ∧ Differs info.mapField row := by
  have hfield := lookup_of_mem hnodup hf
  simp only [List.any_eq_true, Bool.and_eq_true, decide_eq_true_eq, Bool.not_eq_true', Differs]
  refine exists_congr fun row => and_congr_right fun _ => and_congr_right fun hname => ?_
  rw [hname, hfield]
  simp

/-- A table without a column that differs gets its missing columns. -/
theorem repaired_of_fits (hsame : ∀ row ∈ t.rows, ¬ Differs info.mapField row)
    (hnodup : (info.mapField.map Prod.fst).Nodup) : t.Repaired := by
  have hscan := @scan_append info.mapField info.mapField t.rows []
    (t.passed (List.Subset.refl _) hsame)
  rw [List.append_nil] at hscan
  have hdiffering : t.differing = [] := by
    rw [differing, List.filter_eq_nil_iff.2, List.map_nil]
    intro f hf hany
    obtain ⟨row, hrow, -, hdiffers⟩ := (t.any_differs_iff hnodup hf).1 hany
    exact hsame row hrow hdiffers
  refine ⟨_, issued_of_scan hscan, ?_⟩
  rw [hdiffering, missing_eq]

/-- A column behind some rows is declared, and is not among them. -/
theorem exists_mem_notAmong {l l' : List (Bytes × Bytes)} (hsplit : t.rows = l ++ l')
    {row : Bytes × Bytes} (hrow : row ∈ l') :
    ∃ field, (row.1, field) ∈ notAmong l info.mapField := by
  obtain ⟨field, hfield⟩ : ∃ field, info.mapField.lookup row.1 = some field :=
    Option.ne_none_iff_exists'.1 (t.declared row (hsplit ▸ List.mem_append_right _ hrow))
  refine ⟨field, mem_notAmong.2 ⟨?_, ?_⟩⟩
  · obtain ⟨k, k', heq, -⟩ := List.lookup_eq_some_iff.1 hfield
    rw [heq]
    exact List.mem_append_right _ List.mem_cons_self
  · intro r hr
    have hnodup := t.nodup
    rw [hsplit, List.map_append] at hnodup
    apply (List.nodup_append.1 hnodup).2.2
    · exact List.mem_map_of_mem hr
    · exact List.mem_map_of_mem hrow

section First

variable {before behind : List (Bytes × Bytes)} {row : Bytes × Bytes} {field : FieldInfo}
  (hrows : t.rows = before ++ row :: behind)
  (hsame : ∀ row ∈ before, ¬ Differs info.mapField row)
  (hfield : info.mapField.lookup row.1 = some field)
  (hdiffers : contains row.2 field.sDesc = false)

include hrows hsame hfield hdiffers

/-- The statements for a table whose first column that differs is `row`: what stands behind it counts
as missing. -/
theorem issued_of_first :
    issued info t.rows = some (true,
      ((notAmong (before ++ [row]) info.mapField).map Prod.snd).map (addText info) ++
        [field].map (modifyText info)) := by
  have hsub : before ⊆ t.rows := by
    rw [hrows]
    exact List.subset_append_left _ _
  have hscan := @scan_append info.mapField info.mapField before (row :: behind)
    (t.passed hsub hsame)
  rw [← hrows, scan_cons_of_differs hfield hdiffers, ← notAmong_singleton, ← notAmong_append] at hscan
  exact issued_of_scan hscan

/-- If it is the last column, they are what the table needs. -/
theorem repaired_of_last (hnodup : (info.mapField.map Prod.fst).Nodup) (hlast : behind = []) :
    t.Repaired := by
  subst hlast
  have hdiffering : t.differing = [field] := by
    have hfilter : (info.mapField.filter fun f =>
        t.rows.any fun row => row.1 = f.1 && !contains row.2 f.2.sDesc) =
        info.mapField.filter fun f => f.1 = row.1 := by
      refine List.filter_congr fun f hf => ?_
      rw [Bool.eq_iff_iff, t.any_differs_iff hnodup hf, decide_eq_true_eq, hrows]
      constructor
      · rintro ⟨row', hrow', hname, hdiffers'⟩
        rcases List.mem_append.1 hrow' with hrow' | hrow'
        · exact absurd hdiffers' (hsame row' hrow')
        · rw [← hname, List.mem_singleton.1 hrow']
      · intro hname
        exact ⟨row, by simp, hname.symm, field, hfield, hdiffers⟩
    rw [differing, hfilter, filter_key hnodup hfield]
    rfl
  refine ⟨_, t.issued_of_first hrows hsame hfield hdiffers, ?_⟩
  rw [hdiffering, missing_eq, hrows]

/-- Otherwise more columns are added than are missing. -/
theorem not_repaired_of_behind (hbehind : behind ≠ []) : ¬ t.Repaired := by
  rintro ⟨log, hlog, hperm⟩
  cases (t.issued_of_first hrows hsame hfield hdiffers).symm.trans hlog
  have hcount := hperm.countP_eq fun sql => decide (Adds info sql)
  have hsplit : t.rows = before ++ [row] ++ behind := by simp [hrows]
  rw [countP_adds, countP_adds, missing_eq, List.length_map, List.length_map, hsplit,
    notAmong_append (before ++ [row])] at hcount
  obtain ⟨row', hrow'⟩ := List.exists_mem_of_ne_nil behind hbehind
  obtain ⟨field', hadded⟩ := t.exists_mem_notAmong hsplit hrow'
  have hlt : (notAmong behind (notAmong (before ++ [row]) info.mapField)).length <
      (notAmong (before ++ [row]) info.mapField).length := by
    apply List.length_filter_lt_length_iff_exists.2
    refine ⟨(row'.1, field'), hadded, fun hall => ?_⟩
    exact of_decide_eq_true (List.all_eq_true.1 hall row' hrow') rfl
  exact hlt.ne hcount.symm

end First

/-- A table is repaired when no column but the last one that `desc` shows differs. -/
theorem repaired_iff_of_nodup (hnodup : (info.mapField.map Prod.fst).Nodup) :
    t.Repaired ↔ ∀ row ∈ t.rows.dropLast, ¬ Differs info.mapField row := by
  cases hfind : t.rows.find? fun row => Differs info.mapField row with
  | none =>
    have hsame : ∀ row ∈ t.rows, ¬ Differs info.mapField row := by
      simpa using List.find?_eq_none.1 hfind
    exact iff_of_true (t.repaired_of_fits hsame hnodup) fun row hrow =>
      hsame row (List.mem_of_mem_dropLast hrow)
  | some row =>
    obtain ⟨hrow, before, behind, hrows, hbefore⟩ := List.find?_eq_some_iff_append.1 hfind
    obtain ⟨field, hfield, hdiffers⟩ := of_decide_eq_true hrow
    have hsame : ∀ row ∈ before, ¬ Differs info.mapField row := by simpa using hbefore
    by_cases hlast : behind = []
    · refine iff_of_true (t.repaired_of_last hrows hsame hfield hdiffers hnodup hlast) ?_
      rw [hrows, hlast, List.dropLast_concat]
      exact hsame
    · refine iff_of_false (t.not_repaired_of_behind hrows hsame hfield hdiffers hlast) fun h => ?_
      refine h row ?_ ⟨field, hfield, hdiffers⟩
      rw [hrows, List.dropLast_append_of_ne_nil (List.cons_ne_nil _ _),
        List.dropLast_cons_of_ne_nil hlast]
      simp

end ExistingTable

/-- The names of the declared columns of a table are different. -/
theorem nodup_mapField : ∀ p ∈ mapTable, (p.2.mapField.map Prod.fst).Nodup := by decide +kernel

/-- **Which tables are repaired:** of the tables with declared columns, exactly those of which no
column but the last one that `desc` shows has a type that does not occur in its description. -/
theorem repaired_iff (p : Bytes × TableInfo) (hp : p ∈ mapTable) (t : ExistingTable p.2) :
    t.Repaired ↔ ∀ row ∈ t.rows.dropLast, ¬ Differs p.2.mapField row :=
  t.repaired_iff_of_nodup (nodup_mapField p hp)

/-- The columns of `tab_user`, the first of them with another type. -/
def shownColumns : List (Bytes × Bytes) :=
  [(ascii "u_id", ascii "int"), (ascii "u_userName", ascii "varchar(255)")]

theorem exists_user : ∃ p ∈ mapTable, p.1 = ascii "tab_user" ∧
    (∀ row ∈ shownColumns, ¬ Undeclared p.2.mapField row) ∧
    Differs p.2.mapField (ascii "u_id", ascii "int") := by
  decide +kernel

theorem repaired_iff_example : ∃ p ∈ mapTable, ∃ t : ExistingTable p.2, t.rows = shownColumns ∧
    (t.Repaired ↔ ∀ row ∈ t.rows.dropLast, ¬ Differs p.2.mapField row) := by
  obtain ⟨p, hp, -, hdeclared, -⟩ := exists_user
  exact ⟨p, hp, ⟨shownColumns, by decide, by decide, hdeclared⟩, rfl, repaired_iff p hp _⟩

/-- The column behind the one that differs is there, and gets a statement that adds it. -/
theorem not_forall_repaired : ¬ ∀ p ∈ mapTable, ∀ t : ExistingTable p.2, t.Repaired := by
  intro h
  obtain ⟨p, hp, -, hdeclared, hdiffers⟩ := exists_user
  have hrepaired := h p hp ⟨shownColumns, by decide, by decide, hdeclared⟩
  rw [ExistingTable.repaired_iff_of_nodup _ (nodup_mapField p hp)] at hrepaired
  exact hrepaired (ascii "u_id", ascii "int") List.mem_cons_self hdiffers

end MySqlManager

end GraduationServer
