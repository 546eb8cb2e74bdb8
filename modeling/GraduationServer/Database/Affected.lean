import GraduationServer.Database.Connection
import Mathlib.Algebra.Group.Nat.Defs

/-!
# The number of affected rows

`Execute` has two parameters by reference, `nAffectedCount` and `nErrno`. Only a statement that was sent
a second time sets the first of them, and none sets the other: the assignment `nErrno = 0` is to the
variable of that name inside of the function. `CreateDatabase` decides by `nAffectedCount`, so that a
database which was created at once counts as not created.
-/

namespace GraduationServer

/-- The verdict of the sending at which MySQL accepts the statement of a connected tool. -/
def Outcomes.accepted (o : Outcomes) : Option Verdict :=
  if o.first.errno = 0 then some o.first
  else if o.first.errno = serverGoneError ∧ o.again.isSome ∧ o.second.errno = 0 then some o.second
  else none

namespace MySQLTool

variable {t : MySQLTool} {h : ℕ}

/-- `Execute` of a connected tool, by its statement's verdict. -/
theorem execute_eq (ht : t.mysql = some h) (sql : Bytes) (nAffectedCount : UInt32) (nErrno : Int32)
    (o : Outcomes) :
    (t.execute sql nAffectedCount nErrno o).1 =
      (o.accepted.isSome,
        if o.first.errno = 0 then nAffectedCount
        else (o.accepted.map fun v => v.affectedRows.toUInt32).getD nAffectedCount,
        nErrno) := by
  unfold execute send testHandle Outcomes.accepted
  simp only [ht, Bool.false_eq_true, if_false]
  by_cases hfirst : o.first.errno = 0
  · simp only [hfirst, if_true, Bool.false_eq_true, if_false, Option.isSome_some]
  by_cases hgone : o.first.errno = serverGoneError
  · cases hagain : o.again with
    | none => simp [connectAgain, connect, hgone, serverGoneError]
    | some i =>
      by_cases hsecond : o.second.errno = 0
      · simp [connectAgain, connect, hgone, hsecond, serverGoneError]
      · simp [connectAgain, connect, hgone, hsecond, serverGoneError]
  · simp [hfirst, hgone]

/-- What `Execute` reports after a success: the number of affected rows, and no error. -/
def Reports (t : MySQLTool) (sql : Bytes) (nAffectedCount : UInt32) (nErrno : Int32) (o : Outcomes) :
    Prop :=
  (t.execute sql nAffectedCount nErrno o).1.1 = true →
    ∃ v, o.accepted = some v ∧
      (t.execute sql nAffectedCount nErrno o).1.2.1.toNat = v.affectedRows.toNat ∧
      (t.execute sql nAffectedCount nErrno o).1.2.2 = 0

/-- The parameters hold the right values before the call, as far as it does not set them. -/
def Prepared (nAffectedCount : UInt32) (nErrno : Int32) (o : Outcomes) : Prop :=
  ∀ v, o.accepted = some v → nErrno = 0 ∧
    if o.first.errno = 0 then nAffectedCount.toNat = v.affectedRows.toNat
    else v.affectedRows.toNat < 2 ^ 32

theorem reports_iff_prepared (ht : t.mysql = some h) (sql : Bytes) (nAffectedCount : UInt32)
    (nErrno : Int32) (o : Outcomes) :
    t.Reports sql nAffectedCount nErrno o ↔ Prepared nAffectedCount nErrno o := by
  unfold Reports Prepared
  rw [execute_eq ht]
  cases haccepted : o.accepted with
  | none => simp
  | some v =>
    by_cases hfirst : o.first.errno = 0
    · simp [hfirst, and_comm]
    · simp [hfirst, and_comm]

end MySQLTool

namespace MySqlManager

open MySQLTool

/-- `CreateDatabase`, which does nothing without a tool. -/
def createDatabase (mysql : Option MySQLTool) (o : Outcomes) :
    Bool × Option MySQLTool × List ApiCall :=
  match mysql with
  | none => (false, none, [])
  | some t =>
    let sql := ascii " create database " ++ t.dbname ++ ascii ";"
    let execution := t.execute sql 0 0 o
    let naffect := execution.1.2.1
    (execution.1.1 && naffect = 1, some execution.2.1, execution.2.2)

/-- `CreateDatabase` returns `true` if and only if its statement was executed with one affected row. -/
def RightCreation (t : MySQLTool) (o : Outcomes) : Prop :=
  (createDatabase (some t) o).1 = true ↔ ∃ v, o.accepted = some v ∧ v.affectedRows.toNat = 1

/-- The statement was not accepted at once with one affected row, nor later with a number of rows that
is cut to one. -/
def CreationCounted (o : Outcomes) : Prop :=
  ∀ v, o.accepted = some v →
    if o.first.errno = 0 then v.affectedRows.toNat ≠ 1
    else v.affectedRows.toNat % 2 ^ 32 = 1 → v.affectedRows.toNat = 1

variable {t : MySQLTool} {h : ℕ}

theorem rightCreation_iff (ht : t.mysql = some h) (o : Outcomes) :
    RightCreation t o ↔ CreationCounted o := by
  unfold RightCreation CreationCounted createDatabase
  simp only [execute_eq ht, Bool.and_eq_true, decide_eq_true_eq]
  cases haccepted : o.accepted with
  | none => simp
  | some v =>
    by_cases hfirst : o.first.errno = 0
    · simp [hfirst]
    · have hone : v.affectedRows.toUInt32 = 1 ↔ v.affectedRows.toNat % 2 ^ 32 = 1 := by
        rw [← UInt32.toNat_inj, UInt64.toNat_toUInt32]
        rfl
      simp only [hfirst, if_false, Option.isSome_some, true_and, Option.map_some, Option.getD_some,
        hone, Option.some.injEq, exists_eq_left', forall_eq']
      constructor
      · exact fun hiff hmod => hiff.1 hmod
      · exact fun himp => ⟨himp, fun heq => by omega⟩

/-- **When the count is right:** `Execute` reports it exactly when its parameters hold the right values
before the call, as far as it leaves them alone, and `CreateDatabase` is right exactly when its
statement was not accepted at once with one affected row. -/
theorem reports_and_creation_iff (t : MySQLTool) (ht : t.mysql ≠ none) :
    (∀ sql nAffectedCount nErrno o,
      t.Reports sql nAffectedCount nErrno o ↔ Prepared nAffectedCount nErrno o) ∧
      ∀ o, RightCreation t o ↔ CreationCounted o := by
  obtain ⟨i, hi⟩ := Option.ne_none_iff_exists'.1 ht
  exact ⟨reports_iff_prepared hi, rightCreation_iff hi⟩

/-- A tool that is connected. -/
def connected : MySQLTool :=
  ⟨some 1, ascii "127.0.0.1", ascii "root", [], ascii "graduation"⟩

theorem reports_and_creation_iff_example :
    (∀ sql nAffectedCount nErrno o,
      connected.Reports sql nAffectedCount nErrno o ↔ Prepared nAffectedCount nErrno o) ∧
      ∀ o, RightCreation connected o ↔ CreationCounted o :=
  reports_and_creation_iff connected (by decide)

/-- A statement that is accepted at once, with one affected row. -/
def acceptedAtOnce : Outcomes := ⟨none, ⟨0, none, 1, 0⟩, none, verdict 0⟩

/-- The count is not set, and the new database counts as not created. -/
theorem not_reports_and_creation :
    ¬ ∀ t : MySQLTool, t.mysql ≠ none →
      (∀ sql nAffectedCount nErrno o, t.Reports sql nAffectedCount nErrno o) ∧
        ∀ o, RightCreation t o := by
  intro h
  obtain ⟨-, hcreation⟩ := h connected (by decide)
  have hcounted := (rightCreation_iff rfl acceptedAtOnce).1 (hcreation acceptedAtOnce)
  exact hcounted ⟨0, none, 1, 0⟩ rfl rfl

end MySqlManager

end GraduationServer
