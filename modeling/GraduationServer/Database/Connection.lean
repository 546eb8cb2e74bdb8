import GraduationServer.Foundations.Bytes
import GraduationServer.Foundations.Runs

/-!
# The connection to MySQL

`MySQLTool` (`mysqltool.cpp`) holds the handle of a connection, which is null after a failed attempt
to connect. `Query` and `Execute` connect again when the handle is null, and send a statement a second
time over a new connection when MySQL reports that the server is gone.

The MySQL client library is outside: `Outcomes` is what it answers to each call that one operation
may make, and an operation gives the list of its calls (`ApiCall`).

`Query` and `Execute` return when the connection that replaces a null handle has been made, and go on
when it has not, so an operation that finds a null handle either sends nothing or sends with a null
handle. While there is a handle, all is well (`truthful_iff`).
-/

namespace GraduationServer

/-- The calls of the client library. Those on a connection get the handle, which may be null. -/
inductive ApiCall
  | close (handle : ℕ)
  | realConnect (host user passwd db : Bytes) (port : ℕ)
  | setName (handle : ℕ)
  | statement (handle : Option ℕ) (text : Bytes) (accepted : Bool)
  | storeResult (handle : Option ℕ)
  | affectedRows (handle : Option ℕ)
  | fieldCount (handle : Option ℕ)
  deriving DecidableEq

/-- What MySQL makes of a statement: the error number, zero when it is accepted, and what can be asked
for afterwards. -/
structure Verdict where
  errno : ℕ
  result : Option (List (List (Option Bytes)))
  affectedRows : UInt64
  fieldCount : UInt32
  deriving DecidableEq

/-- `CR_SERVER_GONE_ERROR`: the statement has not reached the server. -/
def serverGoneError : ℕ := 2006

/-- The answers during one operation: the handle of the first connection that is made, and what the
statement meets; the same for the second time it is sent. -/
structure Outcomes where
  reconnect : Option ℕ
  first : Verdict
  again : Option ℕ
  second : Verdict

/-- The fields of `MySQLTool` that anything uses. -/
structure MySQLTool where
  mysql : Option ℕ := none
  host : Bytes := []
  user : Bytes := []
  passwd : Bytes := []
  dbname : Bytes := []
  deriving DecidableEq

/-- `QueryResult`, with the arguments of its constructor. -/
structure QueryAnswer where
  result : Option (List (List (Option Bytes)))
  rowcount : UInt32
  cloumcount : UInt32

namespace MySQLTool

/-! ## Operations -/

/-- `connect`, whose attempt gives a handle or fails. -/
def connect (t : MySQLTool) (host user passwd db : Bytes) (port : ℕ) (handle : Option ℕ) :
    Bool × MySQLTool × List ApiCall :=
  let calls := t.mysql.toList.map .close ++ [.realConnect host user passwd db port]
  match handle with
  | some h => (true, ⟨some h, host, user, passwd, db⟩, calls ++ [.setName h])
  | none => (false, { t with mysql := none }, calls)

/-- `connect` with what the last successful one was given. -/
def connectAgain (t : MySQLTool) (handle : Option ℕ) : Bool × MySQLTool × List ApiCall :=
  t.connect t.host t.user t.passwd t.dbname 3306 handle

/-- The test for a null handle in front of every statement: whether the operation returns. -/
def testHandle (t : MySQLTool) (handle : Option ℕ) : Bool × MySQLTool × List ApiCall :=
  match t.mysql with
  | some _ => (false, t, [])
  | none => t.connectAgain handle

/-- What `Query` and `Execute` have in common: the verdict on the statement when it is accepted, with
whether it was sent for the second time, the tool and the calls. -/
def send (t : MySQLTool) (sql : Bytes) (o : Outcomes) :
    Option (Verdict × Bool) × MySQLTool × List ApiCall :=
  let (returns, t, calls) := t.testHandle o.reconnect
  if returns then (none, t, calls)
  else
    let calls := calls ++ [.statement t.mysql sql (o.first.errno = 0)]
    if o.first.errno = 0 then (some (o.first, false), t, calls)
    else if o.first.errno = serverGoneError then
      let (connected, t, connecting) := t.connectAgain o.again
      let calls := calls ++ connecting
      if connected then
        let calls := calls ++ [.statement t.mysql sql (o.second.errno = 0)]
        if o.second.errno = 0 then (some (o.second, true), t, calls) else (none, t, calls)
      else (none, t, calls)
    else (none, t, calls)

/-- `Query`; null without a result. -/
def query (t : MySQLTool) (sql : Bytes) (o : Outcomes) :
    Option QueryAnswer × MySQLTool × List ApiCall :=
  match t.send sql o with
  | (none, t, calls) => (none, t, calls)
  | (some (v, _), t, calls) =>
    (some ⟨v.result, v.affectedRows.toUInt32, v.fieldCount⟩, t,
      calls ++ [.storeResult t.mysql, .affectedRows t.mysql, .fieldCount t.mysql])

/-- `Execute`: its result, and `nAffectedCount`, which is set only when the statement was sent for the
second time. `nErrno` keeps its value: the variable of this name inside of the function is another. -/
def execute (t : MySQLTool) (sql : Bytes) (nAffectedCount : UInt32) (nErrno : Int32) (o : Outcomes) :
    (Bool × UInt32 × Int32) × MySQLTool × List ApiCall :=
  match t.send (cStr sql) o with
  | (none, t, calls) => ((false, nAffectedCount, nErrno), t, calls)
  | (some (v, again), t, calls) =>
    if again then
      ((true, v.affectedRows.toUInt32, nErrno), t, calls ++ [.affectedRows t.mysql])
    else ((true, nAffectedCount, nErrno), t, calls)

/-- A call of one of the three operations. -/
inductive Operation
  | connect (host user passwd db : Bytes) (port : ℕ)
  | query (sql : Bytes)
  | execute (sql : Bytes) (nAffectedCount : UInt32) (nErrno : Int32)

/-- What an operation returns, as a truth value, the tool afterwards and the calls it has made. -/
def perform (t : MySQLTool) (o : Outcomes) : Operation → Bool × MySQLTool × List ApiCall
  | .connect host user passwd db port => t.connect host user passwd db port o.reconnect
  | .query sql =>
    let (answer, t, calls) := t.query sql o
    (answer.isSome, t, calls)
  | .execute sql nAffectedCount nErrno =>
    let (result, t, calls) := t.execute sql nAffectedCount nErrno o
    (result.1, t, calls)

/-- The tool after an operation. -/
def step (t : MySQLTool) (a : Operation × Outcomes) : Option MySQLTool :=
  some (t.perform a.2 a.1).2.1

end MySQLTool

/-! ## Calls about statements -/

namespace ApiCall

/-- A call about a statement that is given a null handle. -/
def isNull : ApiCall → Bool
  | statement handle _ _ | storeResult handle | affectedRows handle | fieldCount handle =>
    handle.isNone
  | _ => false

/-- The statement with a given text is sent. -/
def sends (sql : Bytes) : ApiCall → Bool
  | statement _ text _ => text = sql
  | _ => false

/-- The statement with a given text is sent and accepted. -/
def isAccepted (sql : Bytes) : ApiCall → Bool
  | statement _ text accepted => text = sql && accepted
  | _ => false

end ApiCall

namespace MySQLTool

/-! ## Truthful operations -/

/-- `Execute` is right about its statement: the result tells whether the statement was accepted, which
happens once at most, and after a null handle has been replaced the statement is sent. -/
structure RightExecute (t : MySQLTool) (sql : Bytes) (o : Outcomes) (result : Bool)
    (calls : List ApiCall) : Prop where
  result_iff : result = true ↔ ∃ call ∈ calls, call.isAccepted (cStr sql)
  once : calls.countP (ApiCall.isAccepted (cStr sql)) ≤ 1
  sent : t.mysql = none → o.reconnect ≠ none → ∃ call ∈ calls, call.sends (cStr sql)

/-- An operation makes no call about a statement with a null handle, and `Execute` is right. -/
structure Truthful (t : MySQLTool) (a : Operation × Outcomes) : Prop where
  notNull : ∀ call ∈ (t.perform a.2 a.1).2.2, call.isNull = false
  right : ∀ sql nAffectedCount nErrno, a.1 = .execute sql nAffectedCount nErrno →
    t.RightExecute sql a.2 (t.perform a.2 a.1).1 (t.perform a.2 a.1).2.2

/-- There is a handle when a statement is to be executed, and when one is to be queried there is one or
none can be made. -/
def HasHandle (t : MySQLTool) (a : Operation × Outcomes) : Prop :=
  match a.1 with
  | .connect .. => True
  | .query _ => t.mysql ≠ none ∨ a.2.reconnect ≠ none
  | .execute .. => t.mysql ≠ none

variable {t : MySQLTool} {sql : Bytes} {o : Outcomes} {h : ℕ}

/-- Making a connection is no call about a statement. -/
theorem of_mem_connect {host user passwd db : Bytes} {port : ℕ} {handle : Option ℕ} {call : ApiCall}
    (hcall : call ∈ (t.connect host user passwd db port handle).2.2) :
    call.isNull = false ∧ ∀ sql, call.sends sql = false ∧ call.isAccepted sql = false := by
  have hclose : ∀ call ∈ t.mysql.toList.map ApiCall.close ++
      [.realConnect host user passwd db port], call.isNull = false ∧
        ∀ sql, call.sends sql = false ∧ call.isAccepted sql = false := by
    intro call hcall
    rcases List.mem_append.1 hcall with hcall | hcall
    · obtain ⟨h, -, rfl⟩ := List.mem_map.1 hcall
      exact ⟨rfl, fun _ => ⟨rfl, rfl⟩⟩
    · rw [List.mem_singleton.1 hcall]
      exact ⟨rfl, fun _ => ⟨rfl, rfl⟩⟩
  cases handle with
  | none => exact hclose call hcall
  | some h =>
    rcases List.mem_append.1 hcall with hcall | hcall
    · exact hclose call hcall
    · rw [List.mem_singleton.1 hcall]
      exact ⟨rfl, fun _ => ⟨rfl, rfl⟩⟩

/-- A statement sent over a connection: no null handle, and it is accepted once if there is a verdict
and not at all otherwise. -/
structure Sent (sql : Bytes) (r : Option (Verdict × Bool) × MySQLTool × List ApiCall) : Prop where
  notNull : ∀ call ∈ r.2.2, call.isNull = false
  count : r.2.2.countP (ApiCall.isAccepted sql) = if r.1.isSome then 1 else 0
  handle : r.1.isSome → r.2.1.mysql ≠ none

/-- **Sending over a connection**, by cases on what the two calls meet. -/
theorem sent_of_handle (ht : t.mysql = some h) (sql : Bytes) (o : Outcomes) :
    Sent sql (t.send sql o) := by
  have hsent : ∀ accepted, ApiCall.isAccepted sql (.statement (some h) sql accepted) = accepted := by
    simp [ApiCall.isAccepted]
  unfold send testHandle
  simp only [ht, Bool.false_eq_true, if_false, List.nil_append]
  by_cases hfirst : o.first.errno = 0
  · simp only [hfirst, if_true]
    exact ⟨by simp [ApiCall.isNull], by simp [hsent], by simp [ht]⟩
  simp only [hfirst, if_false, decide_false]
  by_cases hgone : o.first.errno = serverGoneError
  · simp only [hgone, if_true]
    cases o.again with
    | none =>
      simp only [connectAgain, connect, ht, Option.toList_some, List.map_cons, List.map_nil,
        Bool.false_eq_true, if_false]
      exact ⟨by simp [ApiCall.isNull], by simp [ApiCall.isAccepted], by simp⟩
    | some h' =>
      simp only [connectAgain, connect, ht, Option.toList_some, List.map_cons, List.map_nil, if_true]
      by_cases hsecond : o.second.errno = 0
      · simp only [hsecond, if_true]
        exact ⟨by simp [ApiCall.isNull], by simp [ApiCall.isAccepted], by simp⟩
      · simp only [hsecond, if_false]
        exact ⟨by simp [ApiCall.isNull], by simp [ApiCall.isAccepted], by simp⟩
  · simp only [hgone, if_false]
    exact ⟨by simp [ApiCall.isNull], by simp [hsent], by simp⟩

/-- Without a handle `send` returns when a connection can be made, and nothing has been sent. -/
theorem send_of_reconnect (ht : t.mysql = none) (ho : o.reconnect = some h) (sql : Bytes) :
    (t.send sql o).1 = none ∧ (t.send sql o).2.2.countP (ApiCall.sends sql) = 0 ∧
      ∀ call ∈ (t.send sql o).2.2, call.isNull = false := by
  simp [send, testHandle, connectAgain, connect, ht, ho, ApiCall.sends, ApiCall.isNull]

/-- Without a handle and a connection that can be made the statement is sent with a null handle. -/
theorem null_of_send (ht : t.mysql = none) (ho : o.reconnect = none) (sql : Bytes) :
    ∃ call ∈ (t.send sql o).2.2, call.isNull = true := by
  refine ⟨.statement none sql (o.first.errno = 0), ?_, rfl⟩
  simp only [send, testHandle, connectAgain, connect, ht, ho, Bool.false_eq_true, if_false]
  split_ifs <;> simp

/-- `Execute` makes the calls of `send`, and asks for a number at the end. -/
theorem calls_execute (t : MySQLTool) (sql : Bytes) (nAffectedCount : UInt32) (nErrno : Int32)
    (o : Outcomes) :
    ∃ rest, (t.execute sql nAffectedCount nErrno o).2.2 = (t.send (cStr sql) o).2.2 ++ rest ∧
      (∀ call ∈ rest, call.isNull = (t.send (cStr sql) o).2.1.mysql.isNone ∧
        call.sends (cStr sql) = false ∧ call.isAccepted (cStr sql) = false) ∧
      ((t.send (cStr sql) o).1 = none → rest = []) ∧
      (t.execute sql nAffectedCount nErrno o).1.1 = (t.send (cStr sql) o).1.isSome := by
  unfold execute
  rcases t.send (cStr sql) o with ⟨_ | ⟨v, again⟩, t', calls⟩
  · exact ⟨[], by simp⟩
  · cases again with
    | false => exact ⟨[], by simp⟩
    | true => exact ⟨[.affectedRows t'.mysql], by simp [ApiCall.isNull, ApiCall.sends, ApiCall.isAccepted]⟩

/-- `Query` makes the calls of `send`, and asks for the result at the end. -/
theorem calls_query (t : MySQLTool) (sql : Bytes) (o : Outcomes) :
    ∃ rest, (t.query sql o).2.2 = (t.send sql o).2.2 ++ rest ∧
      (∀ call ∈ rest, call.isNull = (t.send sql o).2.1.mysql.isNone) ∧
      ((t.send sql o).1 = none → rest = []) := by
  unfold query
  rcases t.send sql o with ⟨_ | ⟨v, again⟩, t', calls⟩
  · exact ⟨[], by simp⟩
  · exact ⟨[.storeResult t'.mysql, .affectedRows t'.mysql, .fieldCount t'.mysql],
      by simp [ApiCall.isNull]⟩

/-- The calls behind those of `send` are given a handle too. -/
theorem notNull_append {r : Option (Verdict × Bool) × MySQLTool × List ApiCall}
    {rest : List ApiCall} (hcalls : ∀ call ∈ r.2.2, call.isNull = false)
    (hhandle : r.1.isSome → r.2.1.mysql ≠ none)
    (hrest : ∀ call ∈ rest, call.isNull = r.2.1.mysql.isNone) (hnone : r.1 = none → rest = []) :
    ∀ call ∈ r.2.2 ++ rest, call.isNull = false := by
  intro call hcall
  rcases List.mem_append.1 hcall with hcall | hcall
  · exact hcalls call hcall
  · cases hverdict : r.1 with
    | none =>
      rw [hnone hverdict] at hcall
      cases hcall
    | some v =>
      rw [hrest call hcall, Option.isNone_eq_false_iff, Option.isSome_iff_ne_none]
      exact hhandle (by rw [hverdict]; rfl)

/-- `Execute` with a handle. -/
theorem truthful_execute (ht : t.mysql = some h) (sql : Bytes) (nAffectedCount : UInt32)
    (nErrno : Int32) (o : Outcomes) : t.Truthful (.execute sql nAffectedCount nErrno, o) := by
  obtain ⟨rest, hcalls, hrest, hnone, hresult⟩ := calls_execute t sql nAffectedCount nErrno o
  have hsent := sent_of_handle ht (cStr sql) o
  -- the calls at the end do not send the statement again
  have hcount : (t.execute sql nAffectedCount nErrno o).2.2.countP (ApiCall.isAccepted (cStr sql)) =
      if (t.send (cStr sql) o).1.isSome then 1 else 0 := by
    have hend : rest.countP (ApiCall.isAccepted (cStr sql)) = 0 :=
      List.countP_eq_zero.2 fun call hcall => by simp [(hrest call hcall).2.2]
    rw [hcalls, List.countP_append, hsent.count, hend, Nat.add_zero]
  refine ⟨?_, ?_⟩
  · simp only [perform, hcalls]
    exact notNull_append hsent.notNull hsent.handle (fun call hcall => (hrest call hcall).1) hnone
  · rintro _ _ _ ⟨⟩
    simp only [perform]
    refine ⟨?_, ?_, fun hnull => by simp [ht] at hnull⟩
    · rw [hresult, ← List.countP_pos_iff, hcount]
      cases (t.send (cStr sql) o).1 <;> simp
    · rw [hcount]
      split <;> simp

/-- An operation that is given what it needs is truthful. -/
theorem truthful_of_hasHandle {a : Operation × Outcomes} (h : t.HasHandle a) : t.Truthful a := by
  obtain ⟨op, o⟩ := a
  cases op with
  | connect host user passwd db port =>
    exact ⟨fun call hcall => (of_mem_connect hcall).1, fun _ _ _ heq => by cases heq⟩
  | query sql =>
    refine ⟨?_, fun _ _ _ heq => by cases heq⟩
    obtain ⟨rest, hcalls, hrest, hnone⟩ := calls_query t sql o
    simp only [perform, hcalls]
    cases ht : t.mysql with
    | some i =>
      have hsent := sent_of_handle ht sql o
      exact notNull_append hsent.notNull hsent.handle hrest hnone
    | none =>
      have hreconnect : o.reconnect ≠ none := h.resolve_left fun hsome => hsome ht
      obtain ⟨i, hi⟩ := Option.ne_none_iff_exists'.1 hreconnect
      obtain ⟨hverdict, -, hcall⟩ := send_of_reconnect ht hi sql
      rw [hnone hverdict, List.append_nil]
      exact hcall
  | execute sql nAffectedCount nErrno =>
    obtain ⟨i, hi⟩ := Option.ne_none_iff_exists'.1 h
    exact truthful_execute hi sql nAffectedCount nErrno o

/-- **An operation is truthful exactly when it is given a handle**: a null one is passed on, or the
statement is not sent over the connection that replaces it. -/
theorem truthful_iff_hasHandle (t : MySQLTool) (a : Operation × Outcomes) :
    t.Truthful a ↔ t.HasHandle a := by
  refine ⟨fun h => ?_, truthful_of_hasHandle⟩
  obtain ⟨op, o⟩ := a
  have hnull : ∀ sql, t.mysql = none → o.reconnect = none →
      ∃ call ∈ (t.send sql o).2.2, call.isNull = true := fun sql ht ho => null_of_send ht ho sql
  cases op with
  | connect host user passwd db port => trivial
  | query sql =>
    by_contra hno
    obtain ⟨ht, ho⟩ := not_or.1 hno
    obtain ⟨call, hcall, hcallNull⟩ := hnull sql (not_not.1 ht) (not_not.1 ho)
    obtain ⟨rest, hcalls, -⟩ := calls_query t sql o
    have hfalse := h.notNull call (by simp only [perform, hcalls]; exact List.mem_append_left _ hcall)
    rw [hcallNull] at hfalse
    cases hfalse
  | execute sql nAffectedCount nErrno =>
    intro ht
    obtain ⟨rest, hcalls, hrest, hnone, -⟩ := calls_execute t sql nAffectedCount nErrno o
    cases ho : o.reconnect with
    | none =>
      obtain ⟨call, hcall, hcallNull⟩ := hnull (cStr sql) ht ho
      have hfalse :=
        h.notNull call (by simp only [perform, hcalls]; exact List.mem_append_left _ hcall)
      rw [hcallNull] at hfalse
      cases hfalse
    | some i =>
      obtain ⟨hverdict, hcount, -⟩ := send_of_reconnect ht ho (cStr sql)
      have hright := (h.right sql nAffectedCount nErrno rfl).sent ht (by simp [ho])
      simp only [perform, hcalls, hnone hverdict, List.append_nil] at hright
      obtain ⟨call, hcall, hsends⟩ := hright
      exact absurd hsends (List.countP_eq_zero.1 hcount call hcall)

/-- **Along every run the operations are truthful exactly when none is asked for a statement without a
handle.** -/
theorem truthful_iff (inputs : List (Operation × Outcomes)) :
    Along step Truthful {} inputs ↔ Along step HasHandle {} inputs :=
  along_iff (fun _ => True) (fun t a _ => truthful_iff_hasHandle t a) (fun _ _ _ _ _ _ => trivial)
    inputs {} trivial

/-- Nothing but a verdict. -/
def verdict (errno : ℕ) : Verdict := ⟨errno, none, 0, 0⟩

/-- A connection is made; the server is then gone and cannot be reached; and then it can be again. -/
def lostConnection : List (Operation × Outcomes) :=
  [(.connect (ascii "127.0.0.1") (ascii "root") [] (ascii "db") 3306,
      ⟨some 1, verdict 0, none, verdict 0⟩),
    (.execute (ascii "DELETE FROM t;") 0 0, ⟨none, verdict serverGoneError, none, verdict 0⟩),
    (.execute (ascii "DELETE FROM t;") 0 0, ⟨some 2, verdict 0, none, verdict 0⟩)]

/-- The second statement is not sent over the new connection. -/
theorem not_truthful_lostConnection : ¬ ∀ inputs, Along step Truthful {} inputs := by
  intro h
  obtain ⟨-, h⟩ := h lostConnection
  obtain ⟨-, h⟩ := h _ rfl
  obtain ⟨h, -⟩ := h _ rfl
  obtain ⟨call, hcall, hsends⟩ := (h.right _ _ _ rfl).sent rfl (by decide)
  revert call
  decide

end MySQLTool

end GraduationServer
