import OnlineJudger.Acm.ZMySql
import OnlineJudger.Judger.System

/-!
# `OnlineJudger.Judger.DBManagerCalls`: the connection calls of the two threads

`DBManager` has one connection, and `doRead` and `doWrite` both use it without a lock. The model
has each call of `query` and of `storeResult` as a step of its own. What is done with the rows and
with the tasks is in `Judger.System`, and here is the order of the calls only.

An action carries the answer of the server.
-/

set_option autoImplicit false

namespace OnlineJudger.DBManager

/-- The rows of a result set: of `sqlSelectProblem` or of `sqlSelectCode`. The code reads the
columns of the one that it expects. -/
inductive Rows where
  | problem (rows : List SelectedRow)
  | code (sources : List Text)
  deriving DecidableEq, Repr

/-- Where `doRead` and `tryLoadCode` stand. Between the query and its `storeResult` is a place of
its own, since the other thread can use the connection there. -/
inductive ReadPc where
  /-- At the test of `isRunning`. -/
  | check
  /-- Before the query of `sqlSelectProblem`. -/
  | selectProblem
  | storeProblem
  /-- In the loop over the rows that are left. With a row, before the query of `sqlSelectCode`. -/
  | rows (rows : List SelectedRow)
  | storeCode (row : SelectedRow) (rows : List SelectedRow)
  /-- Before the query of `sqlUpdateSolutionCompiling`. -/
  | compiling (row : SelectedRow) (rows : List SelectedRow)
  | exited
  deriving DecidableEq, Repr

/-- A query of `doWrite`. None of them has a result set, so the writer never calls `storeResult`. -/
inductive WriteQuery where
  | solution
  | other (statement : WriteStatement)
  deriving DecidableEq, Repr

/-- Where `doWrite` stands. -/
inductive WritePc where
  /-- At the test of `isRunning` or in `getFinishTask`. -/
  | getting
  /-- Before the queries for the task. -/
  | queries (queries : List WriteQuery)
  | exited
  deriving DecidableEq, Repr

/-- The connection and the two threads. Two lists record what the calls have met: which result each
`storeResult` got, and which queries came too early. -/
structure Calls where
  sql : ZMySql Rows := {}
  reader : ReadPc := .check
  writer : WritePc := .getting
  /-- The number of the SELECT that the reader has issued last. -/
  lastSelect : Option ℕ := none
  /-- For each `storeResult` of the reader, the SELECT that it has issued last, and the query of
  the result set that came back. -/
  stored : List (Option ℕ × Option ℕ) := []
  /-- The queries that were issued in front of a result set that was not stored yet. -/
  early : List ℕ := []

/-- One call, or one step of a thread between its calls. In an answer of the server, `none` is an
error. The threads share no lock, so any order of the calls of the two is possible. -/
inductive Call where
  | readerCheck (running : Bool)
  | readerSelectProblem (answer : Option (List SelectedRow))
  | readerSelectCode (answer : Option (List Text))
  | readerUpdate (ok : Bool)
  | readerStore
  | readerRowsEnd
  /-- `getFinishTask` returns a task, or `none` at the end. -/
  | writerGet (task : Option TaskBase)
  | writerQuery (ok : Bool)

/-- All queries of `doWrite` for a task: the one of `updateSolution` first, and then those of its
statements. -/
def WriteQuery.ofTask (config : Config) (task : TaskBase) : List WriteQuery :=
  .solution :: (WriteStatement.ofTask config task).map .other

namespace Calls

/-- One call of `query`, with what is recorded about it. A query in front of the `storeResult` of
the one before is too early: the library does not allow it. -/
def query (answer : ServerAnswer Rows) (s : Calls) : Bool × Calls :=
  let (ok, sql) := s.sql.query answer
  (ok, { s with
    sql
    early := if s.sql.unread.isSome then s.early ++ [s.sql.serial] else s.early })

/-- A statement without a result set. It needs the connection to be free, as every query does. -/
def update (ok : Bool) (s : Calls) : Bool × Calls :=
  s.query (if ok then .done else .error)

/-- The reader issues a SELECT. Its number is remembered, to be compared with the result that
comes. -/
def select (answer : Option Rows) (s : Calls) : Bool × Calls :=
  let (ok, s') := s.query (answer.elim .error .rows)
  (ok, { s' with lastSelect := some s.sql.serial })

/-- One call of `storeResult`. It gives the result set of the last query on the connection, whoever
issued that. -/
def storeResult (s : Calls) : Option Rows × Calls :=
  let (res, sql) := s.sql.storeResult
  (res.map ZMySqlRes.rows, { s with
    sql, stored := s.stored ++ [(s.lastSelect, res.map ZMySqlRes.serial)] })

/-- The `while` condition of `doRead`. The flag is given, since `main` may clear it at any time. -/
def readerCheck (running : Bool) (s : Calls) : Option Calls :=
  match s.reader with
  | .check => some { s with reader := if running then .selectProblem else .exited }
  | _ => none

/-- The query of `sqlSelectProblem`. An error ends the thread. -/
def readerSelectProblem (answer : Option (List SelectedRow)) (s : Calls) : Option Calls :=
  match s.reader with
  | .selectProblem =>
    let (ok, s) := s.select (answer.map .problem)
    some { s with reader := if ok then .storeProblem else .exited }
  | _ => none

/-- The query of `sqlSelectCode` in `tryLoadCode`, for the row that comes next. -/
def readerSelectCode (answer : Option (List Text)) (s : Calls) : Option Calls :=
  match s.reader with
  | .rows (row :: rows) =>
    -- without the code, `tryLoadCode` returns and the loop goes on with the same row
    let (ok, s) := s.select (answer.map .code)
    some { s with reader := if ok then .storeCode row rows else .compiling row rows }
  | _ => none

/-- The query of `sqlUpdateSolutionCompiling`. An error ends the loop over the rows. -/
def readerUpdate (ok : Bool) (s : Calls) : Option Calls :=
  match s.reader with
  | .compiling _ rows =>
    let (ok, s) := s.update ok
    some { s with reader := if ok then .rows rows else .check }
  | _ => none

/-- The `storeResult` behind one of the two SELECTs. Without a result the reader goes on: with the
next round, or with the row whose code it has not got. -/
def readerStore (s : Calls) : Option Calls :=
  match s.reader with
  | .storeProblem =>
    match s.storeResult with
    | (some (.problem rows), s) => some { s with reader := .rows rows }
    -- the rows of another query do not have the columns of `sqlSelectProblem`
    | (some (.code _), s) => some { s with reader := .rows [] }
    | (none, s) => some { s with reader := .check }
  | .storeCode row rows =>
    let (_, s) := s.storeResult
    some { s with reader := .compiling row rows }
  | _ => none

/-- The end of the loop over the rows. The next round begins with the test of the flag. -/
def readerRowsEnd (s : Calls) : Option Calls :=
  match s.reader with
  | .rows [] => some { s with reader := .check }
  | _ => none

/-- `getFinishTask`, which does not use the connection. Which task comes, and when, is left open. -/
def writerGet (config : Config) (task : Option TaskBase) (s : Calls) : Option Calls :=
  match s.writer, task with
  | .getting, some task => some { s with writer := .queries (WriteQuery.ofTask config task) }
  | .getting, none => some { s with writer := .exited }
  | _, _ => none

/-- A query of the writer. An error is printed only, and the writer goes on with the next query of
the task. -/
def writerQuery (ok : Bool) (s : Calls) : Option Calls :=
  match s.writer with
  | .queries (_ :: queries) =>
    let (_, s) := s.update ok
    some { s with writer := if queries = [] then .getting else .queries queries }
  | _ => none

/-- One step of one of the two threads. A run is a merge of their calls, and the answers of the
server are in the calls. -/
def step (config : Config) (s : Calls) : Call → Option Calls
  | .readerCheck running => s.readerCheck running
  | .readerSelectProblem answer => s.readerSelectProblem answer
  | .readerSelectCode answer => s.readerSelectCode answer
  | .readerUpdate ok => s.readerUpdate ok
  | .readerStore => s.readerStore
  | .readerRowsEnd => s.readerRowsEnd
  | .writerGet task => s.writerGet config task
  | .writerQuery ok => s.writerQuery ok

end Calls

end OnlineJudger.DBManager
