import GraduationServer.Foundations.Bytes
import Mathlib.Data.List.Perm.Basic
import Mathlib.Algebra.Group.Nat.Defs

/-!
# Tables and query results

The tables of the database, as far as the server relies on MySQL, and the classes through which the
server reads them.

* A `Table` has at least one column and its rows, a value for each column or `none` for `NULL`; no
  row has a `NULL` in a column that is declared `NOT NULL`. `Table.insertInto` adds a row, `Table.deleteFrom`
  removes every row whose columns equal the given strings; both fail on an unknown column.
* `QueryResult` (`QueryResult.cpp`, `Field.cpp`) is the cursor over the rows of a `select *`. An
  unknown name reads outside of the current row (`GetFieldIndexByName` returns -1), as does every
  name when there is no row: `QueryResult.value` is `none` there.
* `loadRows` is the loop with which a list is loaded from a query result.
-/

namespace GraduationServer

/-- The cell of a row at a named column, given the names in the order of the cells. -/
def cell {α : Type*} : List Bytes → List α → Bytes → Option α
  | column :: columns, a :: cells, name =>
    if column = name then some a else cell columns cells name
  | _, _, _ => none

theorem cell_map {α β : Type*} (f : α → β) (columns : List Bytes) (cells : List α) (name : Bytes) :
    cell columns (cells.map f) name = (cell columns cells name).map f := by
  induction columns generalizing cells with
  | nil => rfl
  | cons column columns ih =>
    cases cells with
    | nil => rfl
    | cons a cells =>
      rw [List.map_cons, cell, cell, ih]
      split <;> rfl

theorem cell_map_self {β : Type*} (f : Bytes → β) {columns : List Bytes} {name : Bytes}
    (h : name ∈ columns) : cell columns (columns.map f) name = some (f name) := by
  induction columns with
  | nil => cases h
  | cons column columns ih =>
    rw [List.map_cons, cell]
    split
    · next heq => rw [heq]
    · next hne =>
      rcases List.mem_cons.1 h with rfl | h
      · exact absurd rfl hne
      · exact ih h

/-- A row of a table, a value for each column; `none` is `NULL`. -/
abbrev Row := List (Option Bytes)

/-- A table, with the columns that are declared `NOT NULL`. -/
structure Table (notNull : List Bytes) where
  columns : List Bytes
  rows : List Row
  nonempty : columns ≠ []
  wide : ∀ row ∈ rows, row.length = columns.length
  strict : ∀ row ∈ rows, ∀ name ∈ notNull, cell columns row name ≠ some none

namespace Table

variable {notNull : List Bytes}

/-- The row of an `insert` of the given cells; the other columns get their default values. -/
def newRow (t : Table notNull) (names : List Bytes) (values : List (Option Bytes))
    (others : Bytes → Option Bytes) : Row :=
  t.columns.map fun column => (cell names values column).getD (others column)

/-- `insert into` the table the given values for the named columns. -/
def insertInto (t : Table notNull) (names : List Bytes) (values : List (Option Bytes))
    (others : Bytes → Option Bytes) : Option (Table notNull) :=
  let row := t.newRow names values others
  if h : (∀ name ∈ names, name ∈ t.columns) ∧ ∀ name ∈ notNull, cell t.columns row name ≠ some none
  then some
    { t with
      rows := t.rows ++ [row]
      wide := List.forall_mem_append.2 ⟨t.wide, by simp [row, newRow]⟩
      strict := List.forall_mem_append.2 ⟨t.strict, by simpa using h.2⟩ }
  else none

/-- The row has the given strings in the named columns; a `NULL` equals nothing. -/
def matchesRow (t : Table notNull) (conditions : List (Bytes × Bytes)) (row : Row) : Bool :=
  conditions.all fun c => cell t.columns row c.1 = some (some c.2)

/-- `delete from` the table every row that has the given strings in the named columns. -/
def deleteFrom (t : Table notNull) (conditions : List (Bytes × Bytes)) : Option (Table notNull) :=
  if ∀ c ∈ conditions, c.1 ∈ t.columns then
    some
      { t with
        rows := t.rows.filter fun row => !t.matchesRow conditions row
        wide := fun row hr => t.wide row (List.mem_of_mem_filter hr)
        strict := fun row hr => t.strict row (List.mem_of_mem_filter hr) }
  else none

section Changes

variable {t t' : Table notNull}

/-- An insertion names columns of the table and puts the new row behind its rows. -/
theorem of_insertInto {names : List Bytes} {values : List (Option Bytes)}
    {others : Bytes → Option Bytes} (h : t.insertInto names values others = some t') :
    (∀ name ∈ names, name ∈ t.columns) ∧ t'.columns = t.columns ∧
      t'.rows = t.rows ++ [t.newRow names values others] := by
  simp only [insertInto] at h
  split at h
  · next hok =>
    cases h
    exact ⟨hok.1, rfl, rfl⟩
  · cases h

theorem of_deleteFrom {conditions : List (Bytes × Bytes)} (h : t.deleteFrom conditions = some t') :
    t'.columns = t.columns ∧ t'.rows = t.rows.filter fun row => !t.matchesRow conditions row := by
  unfold deleteFrom at h
  split at h
  · cases h
    exact ⟨rfl, rfl⟩
  · cases h

end Changes

/-- The rows `select *` returns: those of the table, in any order. -/
structure Selected (t : Table notNull) where
  rows : List Row
  perm : rows.Perm t.rows

end Table

/-! ## Reading -/

/-- `Field::SetValue`: a `NULL` reads as the empty string. -/
def fieldValue (value : Option Bytes) : Bytes := value.getD []

/-- The white space of `isspace`. -/
def isSpace (c : UInt8) : Bool := c = 0x20 || (0x09 ≤ c && c ≤ 0x0D)

/-- `atoi`: the number at the front of a string, of 64 bits and then cut to 32. -/
def atoi (s : Bytes) : Int32 :=
  let s := s.dropWhile isSpace
  let digits (s : Bytes) : ℕ :=
    (s.takeWhile fun c => 0x30 ≤ c && c ≤ 0x39).foldl (fun n c => 10 * n + (c.toNat - 0x30)) 0
  match s with
  | [] => 0
  | c :: s' =>
    if c = 0x2D then Int32.ofInt (-(min (digits s') (2 ^ 63) : ℕ))
    else Int32.ofInt (min (digits (if c = 0x2B then s' else s)) (2 ^ 63 - 1) : ℕ)

/-- `Field::toBool`. -/
def toBool (value : Bytes) : Bool := atoi (cStr value) != 0

/-- `QueryResult`: the names of the columns, the current row, and the rows still to come. -/
structure QueryResult where
  vecFieldName : List Bytes
  currentRow : List Bytes
  result : List Row

namespace QueryResult

/-- The constructor: fetches the first row; without one the query is ended (`EndQuery`). -/
def new (columns : List Bytes) : List Row → QueryResult
  | [] => ⟨[], [], []⟩
  | row :: rows => ⟨columns, row.map fieldValue, rows⟩

/-- `Value(name)`: the value in the current row; `none` outside of it. -/
def value (r : QueryResult) (name : Bytes) : Option Bytes := cell r.vecFieldName r.currentRow name

/-- `size()`. -/
def size (r : QueryResult) : ℕ := r.currentRow.length

/-- `NextRow()`; `none` when it returns `false`. -/
def nextRow : QueryResult → Option QueryResult
  | ⟨_, _, []⟩ => none
  | ⟨names, _, row :: rows⟩ => some ⟨names, row.map fieldValue, rows⟩

end QueryResult

/-- The loop over the rows of a result, from the current one on: each is read and kept, and the loop
ends when `NextRow` returns `false`. -/
def loadRows {ρ : Type} (read : (Bytes → Option Bytes) → Option ρ) (names : List Bytes) :
    List Bytes → List Row → Option (List ρ)
  | current, [] => (read (QueryResult.mk names current []).value).map ([·])
  | current, row :: rows =>
    (read (QueryResult.mk names current (row :: rows)).value).bind fun a =>
      (loadRows read names (row.map fieldValue) rows).map (a :: ·)

end GraduationServer
