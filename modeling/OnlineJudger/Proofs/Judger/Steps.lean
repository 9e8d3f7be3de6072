import OnlineJudger.Judger.System

/-!
# `OnlineJudger.Proofs.Judger.Steps`: what each action does

One lemma for each action: where its thread stands before, and the state after. The invariants
of the system are proved from these, and do not unfold the actions.
-/

set_option autoImplicit false

namespace OnlineJudger.State

variable {config : Config} {s s' : State}

/-! ### The front end -/

/-- A new submission has a fresh id and the result that the front end inserts. Nothing else of the
state changes. -/
theorem of_submit {row : SolutionRow} (h : s.submit config row = some s') :
    ∃ hnew, row.result = config.JE_PENDING ∧ s' = { s with db := s.db.submit row hnew } := by
  unfold submit at h
  split at h
  · next hrow => exact ⟨hrow.1, hrow.2, (Option.some.inj h).symm⟩
  · simp only [reduceCtorEq] at h

/-- A rejudge request changes the result of one row and nothing else. It is possible in every
state. -/
theorem of_rejudge {solutionID : Int} (h : s.rejudge config solutionID = some s') :
    s' = { s with db := s.db.rejudge config solutionID } := (Option.some.inj h).symm

/-! ### The reader -/

/-- The reader looks at `m_running` only here, in front of a query. So it goes through the rows of a
query to the end even if it is stopped meanwhile. -/
theorem of_readerCheck (h : s.readerCheck = some s') :
    s.reader = .check ∧ s' = { s with reader := if s.running then .querying else .exited } := by
  unfold readerCheck at h
  split at h
  · next hpc => exact ⟨hpc, (Option.some.inj h).symm⟩
  · simp only [reduceCtorEq] at h

/-- What the reader does with the answer of the query. A query that fails ends its thread, one
without a result leads to the next round, and rows are a selection of the table as it is at this
moment. -/
theorem of_readerSelect {answer : QueryAnswer} (h : s.readerSelect config answer = some s') :
    s.reader = .querying ∧
      (s' = { s with reader := .exited } ∨ s' = { s with reader := .check } ∨
        ∃ rows, answer = .rows rows ∧ s.db.IsSelection config rows ∧
          s' = { s with reader := .rows rows }) := by
  unfold readerSelect at h
  split at h
  · next hpc =>
    refine ⟨hpc, ?_⟩
    cases answer with
    | failed => exact .inl (Option.some.inj h).symm
    | noResult => exact .inr (.inl (Option.some.inj h).symm)
    | rows rows =>
      simp only [Option.ite_none_right_eq_some] at h
      exact .inr (.inr ⟨rows, rfl, h.1, (Option.some.inj h.2).symm⟩)
  · simp only [reduceCtorEq] at h

/-- The rows that the reader gets come from the query, so they are rows of the table with a result
that it selects. -/
theorem isSelection_of_readerSelect {rows : List SelectedRow}
    (h : s.readerSelect config (.rows rows) = some s') : s.db.IsSelection config rows := by
  unfold readerSelect at h
  split at h
  · simp only [Option.ite_none_right_eq_some] at h
    exact h.1
  · simp only [reduceCtorEq] at h

/-- The reader takes a row. The row becomes a new object, and its result is set to compiling before
the task is added to the queue. Without the row's problem the rest of the rows is dropped. -/
theorem of_readerRow {testData : List Text} {ok : Bool}
    (h : s.readerRow config testData ok = some s') :
    ∃ row rows, s.reader = .rows (row :: rows) ∧
      ((ok = true ∧ s' = { s with
          nextAddr := s.nextAddr + 1
          db := s.db.updateSolutionCompiling config (s.newTask config testData row).task.solutionID
          reader := .adding (s.newTask config testData row) rows }) ∨
        (ok = false ∧ s' = { s with nextAddr := s.nextAddr + 1, reader := .check })) := by
  unfold readerRow at h
  split at h
  · next row rows hpc =>
    refine ⟨row, rows, hpc, ?_⟩
    cases ok with
    | true => exact .inl ⟨rfl, (Option.some.inj h).symm⟩
    | false => exact .inr ⟨rfl, (Option.some.inj h).symm⟩
  · simp only [reduceCtorEq] at h

/-- The task goes to the end of the queue of the cores. The list `added` keeps all tasks that ever
did. -/
theorem of_readerAdd (h : s.readerAdd = some s') :
    ∃ task rows, s.reader = .adding task rows ∧ s' = { s with
      reader := .rows rows, tasks := s.tasks.add (some task), added := s.added ++ [task] } := by
  unfold readerAdd at h
  split at h
  · next task rows hpc => exact ⟨task, rows, hpc, (Option.some.inj h).symm⟩
  · simp only [reduceCtorEq] at h

/-- Behind the last row the reader begins a new round. -/
theorem of_readerRowsEnd (h : s.readerRowsEnd = some s') :
    s.reader = .rows [] ∧ s' = { s with reader := .check } := by
  unfold readerRowsEnd at h
  split at h
  · next hpc => exact ⟨hpc, (Option.some.inj h).symm⟩
  · simp only [reduceCtorEq] at h

/-! ### The cores -/

/-- A core takes the front of the queue. A task is judged next, and the marker that stands for a
null pointer ends the core. -/
theorem of_coreGet {i : ℕ} (h : s.coreGet i = some s') :
    s.cores[i]? = some .getting ∧ ∃ task? tasks, s.tasks.get = some (task?, tasks) ∧
      match task? with
      | none => s' = { s with cores := s.cores.set i .exited, tasks }
      | some task => s' = { s with
          cores := s.cores.set i (.judging task), tasks, taken := s.taken ++ [task] } := by
  unfold coreGet at h
  split at h
  · next tasks hpc hget => exact ⟨hpc, none, tasks, hget, (Option.some.inj h).symm⟩
  · next task tasks hpc hget => exact ⟨hpc, some task, tasks, hget, (Option.some.inj h).symm⟩
  · simp only [reduceCtorEq] at h

/-- What has become of a task when the finish callback gets it: the object is the same, and its
fields are as `doJudge` leaves them. -/
def judged (config : Config) (env : JudgeEnv) (task : TaskObj) : TaskObj :=
  ⟨task.addr, (JudgeCore.doJudge config env task.task).2⟩

/-- `judge` calls the finish callback once, with the task as `doJudge` leaves it. The task is
reported and in the queue of the writer before the core cleans up. -/
theorem of_coreFinish {i : ℕ} {env : JudgeEnv} (h : s.coreFinish config i env = some s') :
    ∃ task, s.cores[i]? = some (.judging task) ∧ s' = { s with
      cores := s.cores.set i (.cleaning task (JudgeCore.doCleanUp env))
      finishTask := s.finishTask.add (some (judged config env task))
      reported := s.reported ++ [judged config env task] } := by
  unfold coreFinish at h
  split at h
  · next task hpc => exact ⟨task, hpc, (Option.some.inj h).symm⟩
  · simp only [reduceCtorEq] at h

/-- A core that has cleaned up asks for the next task, and one that could not ends. -/
theorem of_coreCleanUp {i : ℕ} (h : s.coreCleanUp i = some s') :
    ∃ task ok, s.cores[i]? = some (.cleaning task ok) ∧ s' = { s with
      cores := s.cores.set i (if ok then .getting else .exited) } := by
  unfold coreCleanUp at h
  split at h
  · next task ok hpc => exact ⟨task, ok, hpc, (Option.some.inj h).symm⟩
  · simp only [reduceCtorEq] at h

/-! ### The writer -/

/-- The writer looks at `m_running` in front of each task. If it is cleared, the tasks that are
still in the queue are not written. -/
theorem of_writerCheck (h : s.writerCheck = some s') :
    s.writer = .check ∧ s' = { s with writer := if s.running then .getting else .exited } := by
  unfold writerCheck at h
  split at h
  · next hpc => exact ⟨hpc, (Option.some.inj h).symm⟩
  · simp only [reduceCtorEq] at h

/-- The writer takes the front of its queue. The marker ends it. -/
theorem of_writerGet (h : s.writerGet = some s') :
    s.writer = .getting ∧ ∃ task? finishTask, s.finishTask.get = some (task?, finishTask) ∧
      match task? with
      | none => s' = { s with writer := .exited, finishTask }
      | some task => s' = { s with writer := .holding task, finishTask } := by
  unfold writerGet at h
  split at h
  · next q hpc hget => exact ⟨hpc, none, q, hget, (Option.some.inj h).symm⟩
  · next task q hpc hget => exact ⟨hpc, some task, q, hget, (Option.some.inj h).symm⟩
  · simp only [reduceCtorEq] at h

/-- The first statement stores the result of a task. Whether the server accepts it or not, the other
statements follow. -/
theorem of_writerUpdate {ok : Bool} (h : s.writerUpdate config ok = some s') :
    ∃ task, s.writer = .holding task ∧ s' = { s with
      db := if ok then s.db.updateSolution task.task else s.db
      writer := .writing task (WriteStatement.ofTask config task.task)
      written := s.written ++ [task] } := by
  unfold writerUpdate at h
  split at h
  · next task hpc => exact ⟨task, hpc, (Option.some.inj h).symm⟩
  · simp only [reduceCtorEq] at h

/-- One of the other statements, in their order. A statement that fails changes nothing, and the
rest of them follow all the same. Behind the last one the writer looks at `m_running` again. -/
theorem of_writerQuery {ok : Bool} (h : s.writerQuery config ok = some s') :
    ∃ task statement statements, s.writer = .writing task (statement :: statements) ∧
      s' = { s with
        db := if ok then statement.exec config task.task s.db else s.db
        writer := if statements = [] then .check else .writing task statements } := by
  unfold writerQuery at h
  split at h
  · next task statement statements hpc =>
    exact ⟨task, statement, statements, hpc, (Option.some.inj h).symm⟩
  · simp only [reduceCtorEq] at h

/-! ### The main thread -/

/-- The command `exit` brings `main` to `JudgeCell::stop`, with a marker to push for each core. -/
theorem of_mainExit (h : s.mainExit = some s') :
    s.main = .commands ∧ s' = { s with main := .cellStop s.cores.length } := by
  unfold mainExit at h
  split at h
  · next hpc => exact ⟨hpc, (Option.some.inj h).symm⟩
  · simp only [reduceCtorEq] at h

/-- Each marker goes to the front of the queue, ahead of the tasks that wait there. -/
theorem of_mainPush (h : s.mainPush = some s') :
    ∃ n, s.main = .cellStop (n + 1) ∧
      s' = { s with main := .cellStop n, tasks := s.tasks.addFront none } := by
  unfold mainPush at h
  split at h
  · next n hpc => exact ⟨n, hpc, (Option.some.inj h).symm⟩
  · simp only [reduceCtorEq] at h

/-- `main` goes on when every core has ended. -/
theorem of_mainJoinCores (h : s.mainJoinCores = some s') :
    s.main = .cellStop 0 ∧ (∀ c ∈ s.cores, c = .exited) ∧ s' = { s with main := .dbStop } := by
  unfold mainJoinCores at h
  split at h
  · next hpc =>
    rw [Option.ite_none_right_eq_some] at h
    exact ⟨hpc, h.1, (Option.some.inj h.2).symm⟩
  · simp only [reduceCtorEq] at h

/-- `DBManager::stop` begins with the flag that both database threads look at. -/
theorem of_mainDbStop (h : s.mainDbStop = some s') :
    s.main = .dbStop ∧ s' = { s with main := .dbMarker, running := false } := by
  unfold mainDbStop at h
  split at h
  · next hpc => exact ⟨hpc, (Option.some.inj h).symm⟩
  · simp only [reduceCtorEq] at h

/-- The marker for the writer goes to the front of its queue, ahead of the finished tasks there. -/
theorem of_mainDbMarker (h : s.mainDbMarker = some s') :
    s.main = .dbMarker ∧
      s' = { s with main := .joinReader, finishTask := s.finishTask.addFront none } := by
  unfold mainDbMarker at h
  split at h
  · next hpc => exact ⟨hpc, (Option.some.inj h).symm⟩
  · simp only [reduceCtorEq] at h

/-- `main` waits for the reader first. -/
theorem of_mainJoinReader (h : s.mainJoinReader = some s') :
    s.main = .joinReader ∧ s.reader = .exited ∧ s' = { s with main := .joinWriter } := by
  unfold mainJoinReader at h
  split at h
  · next hpc =>
    rw [Option.ite_none_right_eq_some] at h
    exact ⟨hpc, h.1, (Option.some.inj h.2).symm⟩
  · simp only [reduceCtorEq] at h

/-- The last join. Behind it the program has ended. -/
theorem of_mainJoinWriter (h : s.mainJoinWriter = some s') :
    s.main = .joinWriter ∧ s.writer = .exited ∧ s' = { s with main := .stopped } := by
  unfold mainJoinWriter at h
  split at h
  · next hpc =>
    rw [Option.ite_none_right_eq_some] at h
    exact ⟨hpc, h.1, (Option.some.inj h.2).symm⟩
  · simp only [reduceCtorEq] at h

end OnlineJudger.State
