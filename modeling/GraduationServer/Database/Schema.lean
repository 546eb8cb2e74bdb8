import GraduationServer.Foundations.Bytes
import GraduationServer.Foundations.Search

/-!
# The schema of the database

`MySqlManager` (`MySqlManager.cpp`) declares its tables in the constructor, with one `sTableInfo` that
is filled and cleared again. `Init` visits each table: `CheckTable` compares the columns that `desc`
shows with the declaration, adds the missing ones and changes one that differs, and `CreateTable` is
the way out when that fails.

MySQL reads the statements as texts: the definition of a column is a name and a type, and behind `add`
and `modify` stands the keyword `column` or none. `Visit` is what MySQL decides about the statements
of a visit besides their form.
-/

namespace GraduationServer

/-! ## Declarations -/

structure FieldInfo where
  sName : Bytes
  sType : Bytes
  sDesc : Bytes
  deriving DecidableEq

structure TableInfo where
  sName : Bytes := []
  mapField : List (Bytes × FieldInfo) := []
  sKey : Bytes := []
  deriving DecidableEq

/-- A key of a `map` is set, in the order of the keys. -/
def setKey {α : Type} (key : Bytes) (a : α) : List (Bytes × α) → List (Bytes × α)
  | [] => [(key, a)]
  | (k, b) :: entries =>
    if key = k then (key, a) :: entries
    else if key < k then (key, a) :: (k, b) :: entries
    else (k, b) :: setKey key a entries

/-- `info.mapField[name] = {name, type, desc}`. -/
def TableInfo.field (info : TableInfo) (name type desc : String) : TableInfo :=
  { info with
    mapField := setKey (ascii name) ⟨ascii name, ascii type, ascii desc⟩ info.mapField }

namespace MySqlManager

/-- `m_mapTable`, as the constructor fills it. The columns of `tab_textData` are not cleared before
those of `tab_assetsCollect` are declared, and `tab_textData` itself is not inserted. -/
def mapTable : List (Bytes × TableInfo) :=
  let mapTable := []
  let info : TableInfo := {}
  let info := { info with sName := ascii "tab_user" }
  let info := info.field "u_id" "varchar(64) NOT NULL" "varchar(64)"
  let info := info.field "u_userName" "varchar(255) NOT NULL" "varchar(255)"
  let info := info.field "u_password" "varchar(255) NOT NULL" "varchar(255)"
  let info := info.field "u_headImage" "varchar(255) NULL" "varchar(255)"
  let info := info.field "u_sex" "bit NOT NULL" "bit"
  let info := { info with sKey := ascii "PRIMARY KEY (u_id)" }
  let mapTable := setKey info.sName info mapTable
  let info := { info with mapField := [] }
  let info := { info with sName := ascii "tab_videoData" }
  let info := info.field "v_id" "varchar(64) NOT NULL" "varchar(64)"
  let info := info.field "v_upName" "varchar(255) NOT NULL" "varchar(255)"
  let info := info.field "v_videoTitle" "varchar(255) NOT NULL" "varchar(255)"
  let info := info.field "v_filePath" "varchar(255) NOT NULL" "varchar(255)"
  let info := info.field "v_headImgPath" "varchar(255) NULL" "varchar(255)"
  let info := info.field "v_synopsis" "text NOT NULL" "text"
  let info := info.field "v_courses" "varchar(255) NOT NULL" "varchar(255)"
  let info := info.field "v_uID" "varchar(64) NOT NULL" "varchar(64)"
  let info := { info with
    sKey := ascii "PRIMARY KEY (v_id),CONSTRAINT `v_uID` FOREIGN KEY (`v_uID`) " ++
      ascii "REFERENCES `tab_user` (`u_id`)" }
  let mapTable := setKey info.sName info mapTable
  let info := { info with mapField := [] }
  let info := { info with sName := ascii "tab_audioData" }
  let info := info.field "a_id" "varchar(64) NOT NULL" "varchar(64)"
  let info := info.field "a_upName" "varchar(255) NOT NULL" "varchar(255)"
  let info := info.field "a_audioTitle" "varchar(255) NOT NULL" "varchar(255)"
  let info := info.field "a_filePath" "varchar(255) NOT NULL" "varchar(255)"
  let info := info.field "a_headImgPath" "varchar(255) NULL" "varchar(255)"
  let info := info.field "a_courses" "varchar(255) NOT NULL" "varchar(255)"
  let info := info.field "a_uID" "varchar(64) NOT NULL" "varchar(64)"
  let info := { info with
    sKey := ascii "PRIMARY KEY (a_id),CONSTRAINT `a_uID` FOREIGN KEY (`a_uID`) " ++
      ascii "REFERENCES `tab_user` (`u_id`)" }
  let mapTable := setKey info.sName info mapTable
  let info := { info with mapField := [] }
  let info := { info with sName := ascii "tab_textData" }
  let info := info.field "t_id" "varchar(64) NOT NULL" "varchar(64)"
  let info := info.field "t_upName" "varchar(64) NOT NULL" "varchar(64)"
  let info := info.field "t_title" "varchar(255) NOT NULL" "varchar(255)"
  let info := info.field "t_courses" "varchar(255) NOT NULL" "varchar(255)"
  let info := info.field "t_uID" "varchar(64) NOT NULL" "varchar(64)"
  let info := { info with
    sKey := ascii "PRIMARY KEY (t_id),CONSTRAINT `t_uID` FOREIGN KEY (`t_uID`) " ++
      ascii "REFERENCES `tab_user` (`u_id`)" }
  -- here the source has a comment in place of an insertion, and no call of `clear`
  let info := { info with sName := ascii "tab_assetsCollect" }
  let info := info.field "c_id" "varchar(64) NOT NULL" "varchar(64)"
  let info := info.field "c_uID" "varchar(64) NOT NULL" "varchar(64)"
  let info := info.field "c_assetsType" "varchar(8) NOT NULL" "varchar(8)"
  let info := info.field "c_assetsTitle" "varchar(255) NOT NULL" "varchar(255)"
  let info := { info with
    sKey := ascii "PRIMARY KEY (`c_id`),CONSTRAINT `c_uID` FOREIGN KEY (`c_uID`) " ++
      ascii "REFERENCES `tab_user` (`u_id`)" }
  let mapTable := setKey info.sName info mapTable
  let info := { info with mapField := [] }
  let info := { info with sName := ascii "tab_browseRecords" }
  let info := info.field "b_id" "varchar(64) NOT NULL" "varchar(64)"
  let info := info.field "b_assetsType" "varchar(8) NOT NULL" "varchar(8)"
  let info := info.field "b_browseTime" "datetime NOT NULL" "datetime"
  let info := info.field "b_browseTitle" "varchar(255) NOT NULL" "varchar(255)"
  let info := info.field "b_uID" "varchar(64) NOT NULL" "varchar(64)"
  let info := { info with
    sKey := ascii "PRIMARY KEY (b_id),CONSTRAINT `b_uID` FOREIGN KEY (`b_uID`) " ++
      ascii "REFERENCES `tab_user` (`u_id`)" }
  setKey info.sName info mapTable

/-! ## Statements -/

/-- The text of `CreateTable`. -/
def createText (info : TableInfo) : Bytes :=
  ascii " create table if not exists `" ++ info.sName ++ ascii "` (" ++
    (ascii ",").intercalate (info.mapField.map fun f => f.2.sName ++ ascii " " ++ f.2.sType) ++
    (if info.sKey = [] then [] else ascii "," ++ info.sKey) ++
    ascii ") default charset=utf8,ENGINE=InnoDB;"

/-- The text with which `CheckTable` adds a column. -/
def addText (info : TableInfo) (f : FieldInfo) : Bytes :=
  ascii " alter table " ++ info.sName ++ ascii " add colum " ++ f.sName ++ ascii " " ++ f.sType ++
    ascii ";"

/-- The text with which `CheckTable` changes a column. -/
def modifyText (info : TableInfo) (f : FieldInfo) : Bytes :=
  ascii " alter table " ++ info.sName ++ ascii " modify column " ++ f.sName ++ ascii " " ++ f.sType ++
    ascii ";"

end MySqlManager

/-! ## MySQL -/

/-- A column: its name, the type that `desc` shows, and whether an `insert` has to supply a value. -/
structure Column where
  name : Bytes
  type : Bytes
  notNull : Bool
  hasDefault : Bool
  deriving DecidableEq

/-- The columns of a table. -/
structure TableSchema where
  columns : List Column
  nonempty : columns ≠ []

/-- The tables of a database, by their names. -/
abbrev Schema := Bytes → Option TableSchema

/-- A table is put into the schema. -/
def Schema.set (schema : Schema) (name : Bytes) (t : TableSchema) : Schema :=
  fun n => if n = name then some t else schema n

namespace TableSchema

/-- The names of the columns. -/
def names (t : TableSchema) : List Bytes := t.columns.map Column.name

/-- A column is added. -/
def add (t : TableSchema) (c : Column) : TableSchema := ⟨t.columns ++ [c], by simp⟩

/-- A column gets another definition. -/
def modify (t : TableSchema) (c : Column) : TableSchema where
  columns := t.columns.map fun c' => if c'.name = c.name then c else c'
  nonempty h := t.nonempty (List.map_eq_nil_iff.1 h)

end TableSchema

/-- The words of a text between blanks. -/
def words (s : Bytes) : List Bytes := (s.splitOn 0x20).filter (· ≠ [])

/-- The word begins with a type, of those that are declared. -/
def isType (word : Bytes) : Bool :=
  [ascii "varchar", ascii "text", ascii "bit", ascii "datetime"].contains
    (word.takeWhile (· ≠ 0x28))

/-- The type that `desc` shows. -/
def shownType (type : Bytes) : Bytes := if type = ascii "bit" then ascii "bit(1)" else type

/-- The definition of a column: a name, a type, and whether it may be `NULL`. -/
def readColumn : List Bytes → Option Column
  | name :: type :: rest =>
    if isType type then
      some ⟨name, shownType type, rest.take 2 = [ascii "NOT", ascii "NULL"], false⟩
    else none
  | _ => none

/-- A text that creates a table, as MySQL reads it: what is listed and is the definition of a column. -/
def readCreate (sql : Bytes) : Option (Bytes × TableSchema) :=
  (cut (ascii "(") sql).bind fun (head, behind) =>
    let columns := (behind.splitOn 0x2C).filterMap fun piece => readColumn (words piece)
    if h : (words head).take 5 =
        [ascii "create", ascii "table", ascii "if", ascii "not", ascii "exists"] ∧ columns ≠ [] then
      some (((words head).getD 5 []).filter (· ≠ 0x60), ⟨columns, h.2⟩)
    else none

/-- A change of a table: a column is added or gets another definition. -/
inductive Alter
  | add (table : Bytes) (c : Column)
  | modify (table : Bytes) (c : Column)
  deriving DecidableEq

/-- A text that changes a table, as MySQL reads it: the keyword `column` may be left out. -/
def readAlter (sql : Bytes) : Option Alter :=
  match words (sql.takeWhile (· ≠ 0x3B)) with
  | alter :: tableWord :: table :: verb :: clause =>
    if alter = ascii "alter" ∧ tableWord = ascii "table" then
      let definition := if clause.head? = some (ascii "column") then clause.tail else clause
      (readColumn definition).bind fun c =>
        if verb = ascii "add" then some (.add table c)
        else if verb = ascii "modify" then some (.modify table c)
        else none
    else none
  | _ => none

namespace Schema

/-- What a change does; it fails for a table that is not there, and for a column that is there already
or not there. -/
def alter (schema : Schema) : Alter → Option Schema
  | .add table c =>
    (schema table).bind fun t =>
      if t.names.contains c.name then none else some (schema.set table (t.add c))
  | .modify table c =>
    (schema table).bind fun t =>
      if t.names.contains c.name then some (schema.set table (t.modify c)) else none

/-- `MySQLTool::Execute` on a text of `MySqlManager`: the schema afterwards, or `none` when it returns
`false`. A text that is none of these statements is refused. -/
def execute (schema : Schema) (sql : Bytes) (ok : Bool) : Option Schema :=
  if ok then
    match readCreate sql with
    | some (name, t) => some (if (schema name).isSome then schema else schema.set name t)
    | none => (readAlter sql).bind schema.alter
  else none

/-- The names and types that `desc` shows. -/
def desc (schema : Schema) (name : Bytes) (ok : Bool) : Option (List (Bytes × Bytes)) :=
  if ok then (schema name).map fun t => t.columns.map fun c => (c.name, c.type) else none

end Schema

/-- Which statements MySQL carries out when a table is visited. -/
structure Visit where
  desc : Bool
  create : Bool
  alter : Bytes → Bool
  createAgain : Bool

namespace MySqlManager

/-- `CreateTable`: the schema afterwards, or `none` when it returns `false`. -/
def createTable (info : TableInfo) (ok : Bool) (schema : Schema) : Option Schema :=
  if info.mapField = [] then none else schema.execute (createText info) ok

/-- The loop over the rows of `desc`: the declared columns that have not been seen, and the column that
differs, at which the loop breaks. A column that is not declared is looked at for ever (`none`). -/
def scan (mapField : List (Bytes × FieldInfo)) : List (Bytes × Bytes) → List (Bytes × FieldInfo) →
    Option (List (Bytes × FieldInfo) × List FieldInfo)
  | [], rest => some (rest, [])
  | (name, type) :: rows, rest =>
    match mapField.lookup name with
    | none => none
    | some field =>
      let rest := rest.filter fun f => f.1 ≠ name
      if contains type field.sDesc then scan mapField rows rest else some (rest, [field])

/-- The loops that change the columns of a table, one statement for each; the first that fails ends the
function. -/
def alterColumns (text : FieldInfo → Bytes) (ok : Bytes → Bool) :
    List FieldInfo → Schema → Bool × Schema
  | [], schema => (true, schema)
  | field :: fields, schema =>
    match schema.execute (text field) (ok (text field)) with
    | none => (false, schema)
    | some schema => alterColumns text ok fields schema

/-- `CheckTable`; `none` when it does not end. -/
def checkTable (info : TableInfo) (v : Visit) (schema : Schema) : Option (Bool × Schema) :=
  match schema.desc info.sName v.desc with
  | none =>
    match createTable info v.create schema with
    | none => some (false, schema)
    | some schema => some (true, schema)
  | some rows =>
    (scan info.mapField rows info.mapField).map fun (rest, mapChange) =>
      match alterColumns (addText info) v.alter (rest.map Prod.snd) schema with
      | (false, schema) => (false, schema)
      | (true, schema) => alterColumns (modifyText info) v.alter mapChange schema

/-- A table is checked, and created when the check fails. -/
def visitTable (info : TableInfo) (v : Visit) (schema : Schema) : Option (Bool × Schema) :=
  (checkTable info v schema).bind fun (ok, schema) =>
    if ok then some (true, schema)
    else
      match createTable info v.createAgain schema with
      | none => some (false, schema)
      | some schema => some (true, schema)

/-- The loop of `Init` over the declared tables. -/
def visitTables (visits : Bytes → Visit) : List (Bytes × TableInfo) → Schema → Option (Bool × Schema)
  | [], schema => some (true, schema)
  | (name, info) :: tables, schema =>
    (visitTable info (visits name) schema).bind fun (ok, schema) =>
      if ok then visitTables visits tables schema else some (false, schema)

/-- What MySQL decides during `Init`: whether the connection is made, whether the database is found or
created, and the statements of each visit; `tab_user` is visited twice. -/
structure Start where
  connect : Bool
  checkDatabase : Bool
  createDatabase : Bool
  user : Visit
  table : Bytes → Visit

/-- `Init`: what it returns and the schema afterwards; `none` when it does not end. -/
def init (start : Start) (schema : Schema) : Option (Bool × Schema) :=
  if !start.connect then some (false, schema)
  else if !start.checkDatabase && !start.createDatabase then some (false, schema)
  else
    (mapTable.lookup (ascii "tab_user")).bind fun info =>
      (visitTable info start.user schema).bind fun (ok, schema) =>
        if ok then visitTables start.table mapTable schema else some (false, schema)

end MySqlManager

end GraduationServer
