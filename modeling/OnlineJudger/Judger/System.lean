import OnlineJudger.Commen.TaskMgr
import OnlineJudger.Judger.Database
import OnlineJudger.Judger.JudgeCore
import OnlineJudger.Lib.Run

/-!
# `OnlineJudger.Judger.System`: the threads of the judge

The model of `Judger/main.cpp`, `Judger/JudgeCell.cpp` and `Judger/DBManager.cpp`: the reader
thread, the core threads, the writer thread and the main thread, with the two queues between
them and the database. An `Action` is one atomic step of one thread, or of the front end that
works on the same database. `step` says what the action does, and an action that the thread
cannot take in the state gives `none`.

An action carries what the world answers in that step: the rows of a query, whether a
statement succeeds, what the test data directory holds, and what happens in a judge run.
A statement that fails leaves the database unchanged.

`tryLoadCode` writes the source file of a task and `dbmsg` prints rows. Neither changes
anything that is modelled, so both are left out.
-/

set_option autoImplicit false

namespace OnlineJudger

/-- An object of class `TaskBase`. A `TaskPtr` points to it, and the model names it by its
address. -/
structure TaskObj where
  addr : ℕ
  task : TaskBase
  deriving DecidableEq, Repr

/-- Where `DBManager::doRead` stands. The places are those between which another thread can move and
see a difference: the test of the flag, the query, and each row in turn. -/
inductive ReaderPc where
  /-- At the test of `isRunning`. -/
  | check
  /-- Before the query. -/
  | querying
  /-- In the loop over the rows that are left. -/
  | rows (rows : List SelectedRow)
  /-- Before `onRecivTask`. -/
  | adding (task : TaskObj) (rows : List SelectedRow)
  | exited
  deriving DecidableEq, Repr

/-- Where `CoreThreadObj::work` stands. The finish callback splits a `judge` call in two, since the
task is in the queue of the writer from the callback on, while the core is still cleaning up. -/
inductive CorePc where
  /-- In `getTask`. -/
  | getting
  /-- In `judge`, before the finish callback. -/
  | judging (task : TaskObj)
  /-- In `judge`, behind the finish callback. `ok` is the result of `doCleanUp`. -/
  | cleaning (task : TaskObj) (ok : Bool)
  | exited
  deriving DecidableEq, Repr

/-- The statements of `doWrite` behind `updateSolution`, by the table and the column that they
change. Their texts are in `Judger.DBManagerSql`. -/
inductive WriteStatement where
  | userSolved
  | userSubmit
  | problemAccept
  | problemSubmit
  | deleteCompile
  | insertCompile
  deriving DecidableEq, Repr

/-- Where `DBManager::doWrite` stands. A task that was fetched is first held and then written, one
statement after the other. -/
inductive WriterPc where
  /-- At the test of `isRunning`. -/
  | check
  /-- In `getFinishTask`. -/
  | getting
  /-- Before `updateSolution`. -/
  | holding (task : TaskObj)
  /-- Before the statements that are left. -/
  | writing (task : TaskObj) (statements : List WriteStatement)
  | exited
  deriving DecidableEq, Repr

/-- Where `main` stands, from the command loop to its return. Behind the command `exit` it stops the
cell, and then the database manager. -/
inductive MainPc where
  /-- In the command loop. -/
  | commands
  /-- In the loop of `JudgeCell::stop`, with `n` markers to push, and then in
  `m_cores.clear()`. -/
  | cellStop (n : ℕ)
  /-- Before `m_running = false` in `DBManager::stop`. -/
  | dbStop
  /-- Before `m_finishTask.addFront(NULL)`. -/
  | dbMarker
  /-- Before `m_readThread = NULL`. -/
  | joinReader
  /-- Before `m_writeThread = NULL`. -/
  | joinWriter
  | stopped
  deriving DecidableEq, Repr

/-- The program and its database: the threads, the two queues and the flag that they share. The four
lists at the end only record what has happened so far. A `none` in a queue is `NULL`. -/
structure State where
  db : Database
  reader : ReaderPc := .check
  cores : List CorePc
  writer : WriterPc := .check
  main : MainPc := .commands
  /-- `JudgeCell::m_tasks`. -/
  tasks : TaskMgr (Option TaskObj) := {}
  /-- `DBManager::m_finishTask`. -/
  finishTask : TaskMgr (Option TaskObj) := {}
  /-- `DBManager::m_running`. -/
  running : Bool := true
  /-- The address of the next object. -/
  nextAddr : ℕ := 0
  /-- The calls of `addTask` so far. -/
  added : List TaskObj := []
  /-- The real tasks that `getTask` has returned so far. -/
  taken : List TaskObj := []
  /-- The calls of the finish callback so far. -/
  reported : List TaskObj := []
  /-- The calls of `updateSolution` so far. -/
  written : List TaskObj := []

/-- What the query of `doRead` answers. The server decides which of the rows that wait it returns,
so an answer is a parameter of the step. -/
inductive QueryAnswer where
  /-- `query` fails. -/
  | failed
  /-- `storeResult` gives no result. -/
  | noResult
  | rows (rows : List SelectedRow)
  deriving DecidableEq, Repr

/-- One atomic step of one party. What comes from outside is in the action: the rows that the server
returns, the test data on the disk, the success of a statement and the answers to a judge run. -/
inductive Action where
  /-- The front end stores a new submission. -/
  | submit (row : SolutionRow)
  /-- The front end asks to judge a solution again. -/
  | rejudge (solutionID : Int)
  | readerCheck
  | readerSelect (answer : QueryAnswer)
  /-- `ok` is the success of the update to `JE_COMPILING`. -/
  | readerRow (testData : List Text) (ok : Bool)
  | readerAdd
  | readerRowsEnd
  | coreGet (i : ℕ)
  | coreFinish (i : ℕ) (env : JudgeEnv)
  | coreCleanUp (i : ℕ)
  | writerCheck
  | writerGet
  /-- `ok` is the success of the statement. -/
  | writerUpdate (ok : Bool)
  | writerQuery (ok : Bool)
  | mainExit
  | mainPush
  | mainJoinCores
  | mainDbStop
  | mainDbMarker
  | mainJoinReader
  | mainJoinWriter

namespace WriteStatement

/-- What a statement behind `updateSolution` does to the tables. The counts are not carried on from
their old values: each statement counts the rows anew. -/
def exec (config : Config) (task : TaskBase) (db : Database) : WriteStatement → Database
  | .userSolved => db.updateUserSolved config task
  | .userSubmit => db.updateUserSubmit task
  | .problemAccept => db.updateProblemAccept config task
  | .problemSubmit => db.updateProblemSubmit task
  | .deleteCompile => db.deleteCompile task
  | .insertCompile => db.insertCompile task

/-- `updateUser`, `updateProblem` and `updateInfo`, in this order. The error text is inserted for a
compile error only, and the old one is deleted for every task. -/
def ofTask (config : Config) (task : TaskBase) : List WriteStatement :=
  [.userSolved, .userSubmit, .problemAccept, .problemSubmit, .deleteCompile] ++
    if task.result = config.JE_COMPLIE then [.insertCompile] else []

end WriteStatement

namespace State

/-- The state in which all threads start: empty queues, every core in `getTask`, and the reader and
the writer at the test of the flag. The database is what the front end has left in it. -/
def start (db : Database) (cores : ℕ) : State where
  db
  cores := List.replicate cores .getting

variable (config : Config)

/-! ### The front end -/

/-- The front end inserts a row. The key of the table is a new one, and the result is the one that a
new submission has. -/
def submit (row : SolutionRow) (s : State) : Option State :=
  if h : row.solutionID ∉ s.db.solution.map SolutionRow.solutionID ∧
      row.result = config.JE_PENDING then
    some { s with db := s.db.submit row h.1 }
  else none

/-- The front end sets the result of a solution. No row changes if there is no such solution. -/
def rejudge (solutionID : Int) (s : State) : Option State :=
  some { s with db := s.db.rejudge config solutionID }

/-! ### The reader -/

/-- The `while` condition of `doRead`. The flag is read here only, so a reader that has passed the
test finishes its rows. -/
def readerCheck (s : State) : Option State :=
  match s.reader with
  | .check => some { s with reader := if s.running then .querying else .exited }
  | _ => none

/-- The query of `doRead` and its `storeResult`. Which rows come is up to the server. -/
def readerSelect (answer : QueryAnswer) (s : State) : Option State :=
  match s.reader with
  | .querying =>
    match answer with
    -- a failed query breaks the outer loop, so the thread ends
    | .failed => some { s with reader := .exited }
    | .noResult => some { s with reader := .check }
    | .rows rows =>
      if s.db.IsSelection config rows then some { s with reader := .rows rows } else none
  | _ => none

/-- `new TaskBase`, from a row, with the limit of ten seconds for the compiler. The user name is
converted from the code page of the system. -/
def newTask (testData : List Text) (row : SelectedRow) (s : State) : TaskObj where
  addr := s.nextAddr
  task := TaskBase.new config testData row.solutionID row.problemID
    (charToWChar s.db.server.page row.userID) row.language 10000 row.timeLimit row.memoryLimit

/-- A row becomes a task. A failed update leaves the loop over the rows. -/
def readerRow (testData : List Text) (ok : Bool) (s : State) : Option State :=
  match s.reader with
  | .rows (row :: rows) =>
    let task := s.newTask config testData row
    -- a failed update breaks the loop over the rows only, and the rows that are left are dropped
    if ok then
      some { s with
        nextAddr := s.nextAddr + 1
        db := s.db.updateSolutionCompiling config task.task.solutionID
        reader := .adding task rows }
    else some { s with nextAddr := s.nextAddr + 1, reader := .check }
  | _ => none

/-- `onRecivTask`: the task goes to the back of `m_tasks`. From here on the cores can take it, and
the reader goes on with its rows. -/
def readerAdd (s : State) : Option State :=
  match s.reader with
  | .adding task rows =>
    some { s with
      reader := .rows rows, tasks := s.tasks.add (some task), added := s.added ++ [task] }
  | _ => none

/-- The end of the loop over the rows. The reader goes back to the test of the flag. -/
def readerRowsEnd (s : State) : Option State :=
  match s.reader with
  | .rows [] => some { s with reader := .check }
  | _ => none

/-! ### The cores -/

/-- A core in `getTask`. The step is possible when the semaphore has a permit, and what stands in
front of the queue is taken, a task or the exit task. -/
def coreGet (i : ℕ) (s : State) : Option State :=
  match s.cores[i]?, s.tasks.get with
  -- the exit task, which is not judged
  | some .getting, some (none, tasks) =>
    some { s with cores := s.cores.set i .exited, tasks }
  | some .getting, some (some task, tasks) =>
    some { s with cores := s.cores.set i (.judging task), tasks, taken := s.taken ++ [task] }
  | _, _ => none

/-- `onFinishTask` of `main.cpp`, for the object at this address. It runs on the thread of the core,
and it only adds to the queue of the writer. -/
def onFinishTask (addr : ℕ) (_id : ℕ) (task : TaskBase) (s : State) : State :=
  { s with
    finishTask := s.finishTask.add (some ⟨addr, task⟩), reported := s.reported ++ [⟨addr, task⟩] }

/-- `judge` up to the finish callback, as one step that a judging core can always take.

That `judge` returns is assumed here. It does not have to: a judged program that ends with 259, the
value of `STILL_ACTIVE`, is watched for ever (`Acm.Watcher`). What is proved about the end of runs
is said under this assumption. -/
def coreFinish (i : ℕ) (env : JudgeEnv) (s : State) : Option State :=
  match s.cores[i]? with
  | some (.judging task) =>
    -- the callback runs inside `judge`, in front of the cleanup
    let (ok, s) := JudgeCore.judge config env i (some (onFinishTask task.addr)) task.task s
    some { s with cores := s.cores.set i (.cleaning task ok) }
  | _ => none

/-- The end of `judge`. What `doCleanUp` returned is what the loop of the core looks at: the task
was reported before in any case. -/
def coreCleanUp (i : ℕ) (s : State) : Option State :=
  match s.cores[i]? with
  | some (.cleaning _ ok) =>
    -- a core that cannot clean up ends, and its place in `m_cores` stays
    some { s with cores := s.cores.set i (if ok then .getting else .exited) }
  | _ => none

/-! ### The writer -/

/-- The `while` condition of `doWrite`. The writer passes it once for each task. -/
def writerCheck (s : State) : Option State :=
  match s.writer with
  | .check => some { s with writer := if s.running then .getting else .exited }
  | _ => none

/-- The writer in `getFinishTask`, which waits for a permit. The null pointer of `stop` ends its
loop, whatever stands behind it in the queue. -/
def writerGet (s : State) : Option State :=
  match s.writer, s.finishTask.get with
  | .getting, some (none, finishTask) => some { s with writer := .exited, finishTask }
  | .getting, some (some task, finishTask) =>
    some { s with writer := .holding task, finishTask }
  | _, _ => none

/-- `updateSolution`: the first query of a task. It is the one that writes the verdict to the table
of the submissions. -/
def writerUpdate (ok : Bool) (s : State) : Option State :=
  match s.writer with
  | .holding task =>
    some { s with
      -- an error is printed only, so the task counts as written all the same
      db := if ok then s.db.updateSolution task.task else s.db
      writer := .writing task (WriteStatement.ofTask config task.task)
      written := s.written ++ [task] }
  | _ => none

/-- The queries behind `updateSolution`, one step each. Other threads move in between, and the front
end may change the tables there. -/
def writerQuery (ok : Bool) (s : State) : Option State :=
  match s.writer with
  | .writing task (statement :: statements) =>
    some { s with
      db := if ok then statement.exec config task.task s.db else s.db
      writer := if statements = [] then .check else .writing task statements }
  | _ => none

/-! ### The main thread -/

/-- The command `exit` ends the command loop, and `JudgeCell::stop` begins. -/
def mainExit (s : State) : Option State :=
  match s.main with
  -- one marker for each core, also for those that have ended
  | .commands => some { s with main := .cellStop s.cores.length }
  | _ => none

/-- One pass of the loop of `JudgeCell::stop`: a null pointer in front of all tasks that wait. -/
def mainPush (s : State) : Option State :=
  match s.main with
  | .cellStop (n + 1) => some { s with main := .cellStop n, tasks := s.tasks.addFront none }
  | _ => none

/-- `m_cores.clear()` waits for the core threads. The destructor of each core joins its thread, so
the step is possible when all of them have ended. -/
def mainJoinCores (s : State) : Option State :=
  match s.main with
  | .cellStop 0 => if ∀ c ∈ s.cores, c = .exited then some { s with main := .dbStop } else none
  | _ => none

/-- `m_running = false` in `DBManager::stop`. The reader and the writer see it at their next
test. -/
def mainDbStop (s : State) : Option State :=
  match s.main with
  | .dbStop => some { s with main := .dbMarker, running := false }
  | _ => none

/-- `m_finishTask.addFront(NULL)`: the marker that wakes a writer that waits. It stands in front of
the finished tasks. -/
def mainDbMarker (s : State) : Option State :=
  match s.main with
  | .dbMarker => some { s with main := .joinReader, finishTask := s.finishTask.addFront none }
  | _ => none

/-- `m_readThread = NULL` waits for the reader, which may be in the middle of its rows. -/
def mainJoinReader (s : State) : Option State :=
  match s.main with
  | .joinReader => if s.reader = .exited then some { s with main := .joinWriter } else none
  | _ => none

/-- `m_writeThread = NULL` waits for the writer. Behind it `main` returns. -/
def mainJoinWriter (s : State) : Option State :=
  match s.main with
  | .joinWriter => if s.writer = .exited then some { s with main := .stopped } else none
  | _ => none

/-- One step of the system. An action that its party cannot take now has no result. Every
interleaving of the threads is a run of this function, so a statement about all runs is one about
all interleavings. -/
def step (s : State) : Action → Option State
  | .submit row => s.submit config row
  | .rejudge solutionID => s.rejudge config solutionID
  | .readerCheck => s.readerCheck
  | .readerSelect answer => s.readerSelect config answer
  | .readerRow testData ok => s.readerRow config testData ok
  | .readerAdd => s.readerAdd
  | .readerRowsEnd => s.readerRowsEnd
  | .coreGet i => s.coreGet i
  | .coreFinish i env => s.coreFinish config i env
  | .coreCleanUp i => s.coreCleanUp i
  | .writerCheck => s.writerCheck
  | .writerGet => s.writerGet
  | .writerUpdate ok => s.writerUpdate config ok
  | .writerQuery ok => s.writerQuery config ok
  | .mainExit => s.mainExit
  | .mainPush => s.mainPush
  | .mainJoinCores => s.mainJoinCores
  | .mainDbStop => s.mainDbStop
  | .mainDbMarker => s.mainDbMarker
  | .mainJoinReader => s.mainJoinReader
  | .mainJoinWriter => s.mainJoinWriter

/-- The states of all runs, with any number of cores and over any database. Nothing is assumed of
the order in which the parties move. -/
def Reachable (s : State) : Prop :=
  ∃ db cores actions, Lib.run (step config) (start db cores) actions = some s

end State

end OnlineJudger
