import OnlineJudger.Lib.Progress
import OnlineJudger.Proofs.Judger.System

/-!
# `OnlineJudger.Proofs.Judger.Work`: no thread spins

`State.work` is the number of steps that the cores, the writer and `main` can still take for what
is in the system. Each of their steps makes it smaller, and only `addTask` makes it larger, by the
twelve steps that one task needs. So the work of every run is bounded by the tasks that were added
(`work_le`): there is no interleaving in which a thread is busy without a task.

The reader is not counted, since its loop goes on without a task. Once `m_running` is false it is
bounded too (`readerWork_step`).
-/

set_option autoImplicit false

namespace OnlineJudger

open Lib

deriving instance DecidableEq for Party

/-- The threads that handle tasks. -/
def Party.works : Party → Bool
  | .core | .writer | .main => true
  | .frontEnd | .reader => false

/-! ### The work that is left -/

/-- The steps of the writer for an entry of `m_finishTask`: the `get`, `updateSolution`, six
statements at most, and the test of `isRunning` behind them. -/
def finishWork : Option TaskObj → ℕ
  | some _ => 9
  | none => 1

/-- The steps for an entry of `m_tasks`: the `get`, the judge run and its cleanup, and then those
of the writer. -/
def taskWork : Option TaskObj → ℕ
  | some _ => 12
  | none => 1

/-- The steps of a core for its task, and those of the writer for it. -/
def CorePc.work : CorePc → ℕ
  | .judging _ => 11
  | .cleaning _ _ => 1
  | .getting | .exited => 0

/-- The steps of the writer for the task that it holds. -/
def WriterPc.work : WriterPc → ℕ
  | .check => 1
  | .holding _ => 8
  | .writing _ statements => statements.length + 1
  | .getting | .exited => 0

/-- A marker is pushed and taken, so each one that is still to come weighs two steps. -/
def MainPc.work (cores : ℕ) : MainPc → ℕ
  | .commands => 2 * cores + 7
  | .cellStop n => 2 * n + 6
  | .dbStop => 5
  | .dbMarker => 4
  | .joinReader => 2
  | .joinWriter => 1
  | .stopped => 0

namespace State

/-- The steps that the cores, the writer and `main` can still take. -/
def work (s : State) : ℕ :=
  (s.tasks.pool.map taskWork).sum + (s.cores.map CorePc.work).sum +
    (s.finishTask.pool.map finishWork).sum + s.writer.work + s.main.work s.cores.length

variable {config : Config} {s s' : State}

/-- At the start `main` has its markers to push, and the writer looks at the flag. -/
theorem work_start (db : Database) (cores : ℕ) : (start db cores).work = 2 * cores + 8 := by
  have hcores : ((start db cores).cores.map CorePc.work).sum = 0 := by
    show ((List.replicate cores CorePc.getting).map CorePc.work).sum = 0
    rw [List.map_replicate, List.sum_replicate]
    rfl
  show 0 + ((start db cores).cores.map CorePc.work).sum + 0 + 1 +
    (2 * (List.replicate cores CorePc.getting).length + 7) = _
  rw [hcores, List.length_replicate]
  omega

/-- Six statements at most. -/
theorem length_ofTask_le (config : Config) (task : TaskBase) :
    (WriteStatement.ofTask config task).length ≤ 6 := by
  unfold WriteStatement.ofTask
  split <;> simp

/-- A core that moves, with what it does to the two queues. A task weighs less at each later place,
so a step with it is paid for by the task. -/
theorem core_work (a : Action) (ha : a.party = .core) (hstep : step config s a = some s') :
    s'.work + 1 ≤ s.work := by
  cases a with
  | coreGet i =>
    obtain ⟨hpc, task?, tasks, hget, hs'⟩ := of_coreGet hstep
    have hpool := TaskMgr.pool_of_get hget
    cases task? with
    | none =>
      subst hs'
      have hsum := sum_map_set CorePc.work hpc .exited
      simp only [work, hpool, List.map_cons, List.sum_cons, taskWork, CorePc.work,
        List.length_set] at hsum ⊢
      omega
    | some t =>
      subst hs'
      have hsum := sum_map_set CorePc.work hpc (.judging t)
      simp only [work, hpool, List.map_cons, List.sum_cons, taskWork, CorePc.work,
        List.length_set] at hsum ⊢
      omega
  | coreFinish i env =>
    obtain ⟨t, hpc, rfl⟩ := of_coreFinish hstep
    have hsum := sum_map_set CorePc.work hpc (.cleaning t (JudgeCore.doCleanUp env))
    simp only [work, CorePc.work, TaskMgr.add_pool, List.map_append, List.sum_append,
      List.map_singleton, List.sum_singleton, finishWork, List.length_set] at hsum ⊢
    omega
  | coreCleanUp i =>
    obtain ⟨t, ok, hpc, rfl⟩ := of_coreCleanUp hstep
    have hsum := sum_map_set CorePc.work hpc (if ok then .getting else .exited)
    -- whether the core goes on or ends, nothing is left of the task
    have hend : CorePc.work (if ok then .getting else .exited) = 0 := by cases ok <;> rfl
    rw [hend] at hsum
    simp only [work, CorePc.work, List.length_set] at hsum ⊢
    omega
  | _ => cases ha

/-- The writer, with what it takes from `m_finishTask`. A task there weighs the steps that the
writer makes for it, so each of them is paid for. -/
theorem writer_work (a : Action) (ha : a.party = .writer)
    (hstep : step config s a = some s') : s'.work + 1 ≤ s.work := by
  cases a with
  | writerCheck =>
    -- either way the check itself is paid for: getting and exited weigh nothing
    obtain ⟨hpc, rfl⟩ := of_writerCheck hstep
    have hnext : (if s.running then WriterPc.getting else .exited).work = 0 := by
      split <;> rfl
    simp only [work, hpc, hnext]
    simp only [WriterPc.work]
    omega
  | writerGet =>
    obtain ⟨hpc, task?, finishTask, hget, hs'⟩ := of_writerGet hstep
    have hpool := TaskMgr.pool_of_get hget
    cases task? with
    -- the marker in front ends the writer
    | none =>
      subst hs'
      simp only [work, hpc, hpool, List.map_cons, List.sum_cons, finishWork, WriterPc.work]
      omega
    -- a finished task turns into its statements, which weigh less than its place in the pool
    | some t =>
      subst hs'
      simp only [work, hpc, hpool, List.map_cons, List.sum_cons, finishWork, WriterPc.work]
      omega
  | writerUpdate ok =>
    obtain ⟨t, hpc, rfl⟩ := of_writerUpdate hstep
    -- the statements are at most as many as a task is charged for
    have hlength := length_ofTask_le config t.task
    simp only [work, hpc, WriterPc.work]
    omega
  | writerQuery ok =>
    obtain ⟨t, statement, statements, hpc, rfl⟩ := of_writerQuery hstep
    cases statements with
    -- the last statement of the task
    | nil =>
      simp only [work, hpc, WriterPc.work, List.length_singleton, if_true]
      omega
    -- a statement with others behind it
    | cons next statements =>
      simp only [work, hpc, WriterPc.work, List.length_cons, reduceCtorEq, if_false]
      omega
  | _ => cases ha

/-- `main`, with the markers that it pushes. A marker weighs two steps, one that pushes it and one
that takes it, and `main` has both in its own weight before the push. -/
theorem main_work (a : Action) (ha : a.party = .main) (hstep : step config s a = some s') :
    s'.work + 1 ≤ s.work := by
  cases a with
  | mainExit =>
    obtain ⟨hpc, rfl⟩ := of_mainExit hstep
    simp only [work, hpc, MainPc.work]
    omega
  | mainPush =>
    -- each stop marker pushed is charged in the count of cores left
    obtain ⟨n, hpc, rfl⟩ := of_mainPush hstep
    simp only [work, hpc, MainPc.work, TaskMgr.addFront, List.map_cons, List.sum_cons, taskWork]
    omega
  | mainJoinCores =>
    obtain ⟨hpc, -, rfl⟩ := of_mainJoinCores hstep
    simp only [work, hpc, MainPc.work]
    omega
  | mainDbStop =>
    obtain ⟨hpc, rfl⟩ := of_mainDbStop hstep
    simp only [work, hpc, MainPc.work]
    omega
  | mainDbMarker =>
    -- the marker is one `get` of the writer
    obtain ⟨hpc, rfl⟩ := of_mainDbMarker hstep
    simp only [work, hpc, MainPc.work, TaskMgr.addFront, List.map_cons, List.sum_cons, finishWork]
    omega
  | mainJoinReader =>
    obtain ⟨hpc, -, rfl⟩ := of_mainJoinReader hstep
    simp only [work, hpc, MainPc.work]
    omega
  | mainJoinWriter =>
    obtain ⟨hpc, -, rfl⟩ := of_mainJoinWriter hstep
    simp only [work, hpc, MainPc.work]
    omega
  | _ => cases ha

/-- The reader brings work in by `addTask` only. A new task weighs twelve, which is what one more
entry of `added` allows for. -/
theorem reader_work (a : Action) (ha : a.party = .reader) (hstep : step config s a = some s') :
    s'.work + 12 * s.added.length ≤ s.work + 12 * s'.added.length := by
  cases a with
  | readerCheck =>
    -- looping through the check costs the reader nothing: only added tasks count
    obtain ⟨-, rfl⟩ := of_readerCheck hstep
    exact Nat.le_refl _
  | readerSelect answer =>
    obtain ⟨-, rfl | rfl | ⟨rows, -, -, rfl⟩⟩ := of_readerSelect hstep <;> exact Nat.le_refl _
  | readerRow testData ok =>
    obtain ⟨row, rows, -, ⟨-, rfl⟩ | ⟨-, rfl⟩⟩ := of_readerRow hstep <;> exact Nat.le_refl _
  | readerAdd =>
    -- an added task pays for its whole way to the database with the twelve of `added`
    obtain ⟨t, rows, -, rfl⟩ := of_readerAdd hstep
    simp only [work, TaskMgr.add_pool, List.map_append, List.sum_append, List.map_singleton,
      List.sum_singleton, taskWork, List.length_append, List.length_singleton]
    omega
  | readerRowsEnd =>
    obtain ⟨-, rfl⟩ := of_readerRowsEnd hstep
    exact Nat.le_refl _
  | _ => cases ha

/-- A thread that handles tasks adds none, and the front end neither. -/
theorem added_eq (a : Action) (ha : a.party ≠ .reader) (hstep : step config s a = some s') :
    s'.added = s.added := by
  cases hparty : a.party with
  | frontEnd =>
    obtain ⟨db, rfl⟩ := frontEnd_frame hparty hstep
    rfl
  | reader => exact absurd hparty ha
  | core =>
    obtain ⟨i, c, c', tasks, taken, finishTask, reported, -, -, rfl⟩ := core_frame hparty hstep
    rfl
  | writer =>
    obtain ⟨writer, finishTask, db, written, rfl⟩ := writer_frame hparty hstep
    rfl
  | main =>
    obtain ⟨main, running, tasks, finishTask, rfl, -, -⟩ := main_frame hparty hstep
    rfl

/-- Each step of a thread that handles tasks is paid for. A step of the front end or of the reader
costs nothing, and the reader may bring in a task. -/
theorem work_step (a : Action) (hstep : step config s a = some s') :
    s'.work + 12 * s.added.length + (if a.party.works then 1 else 0) ≤
      s.work + 12 * s'.added.length := by
  cases hparty : a.party with
  -- the front end touches the rows only
  | frontEnd =>
    obtain ⟨db, rfl⟩ := frontEnd_frame hparty hstep
    exact Nat.le_refl _
  | reader => exact reader_work a hparty hstep
  -- in the three working parties each step is a strict decrease
  | core =>
    have hwork := core_work a hparty hstep
    rw [added_eq a (by simp only [hparty, ne_eq, reduceCtorEq, not_false_eq_true]) hstep]
    simp only [Party.works, if_true]
    omega
  | writer =>
    have hwork := writer_work a hparty hstep
    rw [added_eq a (by simp only [hparty, ne_eq, reduceCtorEq, not_false_eq_true]) hstep]
    simp only [Party.works, if_true]
    omega
  | main =>
    have hwork := main_work a hparty hstep
    rw [added_eq a (by simp only [hparty, ne_eq, reduceCtorEq, not_false_eq_true]) hstep]
    simp only [Party.works, if_true]
    omega

/-- In every run the steps of the cores, the writer and `main` are bounded by the tasks that were
added. The rule of amortised costs, with the work as the potential. -/
theorem work_le {db : Database} {cores : ℕ} {actions : List Action}
    (hrun : run (step config) (start db cores) actions = some s) :
    actions.countP (fun a => a.party.works) + s.work ≤ 2 * cores + 8 + 12 * s.added.length := by
  have hpaid := run_countP_le (fun _ => True) (fun a : Action => a.party.works) work
    (fun s => 12 * s.added.length) (fun _ a _ _ hstep => ⟨trivial, work_step a hstep⟩) trivial hrun
  rw [work_start] at hpaid
  exact hpaid

/-! ### Behind `m_running = false` -/

/-- The steps that the reader can still take once `m_running` is false, with the work of the tasks
that it can still add. A query gives twenty rows at most, so this number has a bound. -/
def readerWork (s : State) : ℕ :=
  match s.reader with
  | .check => 1
  | .querying => 14 * Database.selectLimit + 3
  | .rows rows => 14 * rows.length + 2
  | .adding _ rows => 14 * rows.length + 15
  | .exited => 0

/-- A step of another thread leaves the reader where it is. -/
theorem reader_eq (a : Action) (ha : a.party ≠ .reader) (hstep : step config s a = some s') :
    s'.reader = s.reader := by
  cases hparty : a.party with
  | frontEnd =>
    obtain ⟨db, rfl⟩ := frontEnd_frame hparty hstep
    rfl
  | reader => exact absurd hparty ha
  | core =>
    obtain ⟨i, c, c', tasks, taken, finishTask, reported, -, -, rfl⟩ := core_frame hparty hstep
    rfl
  | writer =>
    obtain ⟨writer, finishTask, db, written, rfl⟩ := writer_frame hparty hstep
    rfl
  | main =>
    obtain ⟨main, running, tasks, finishTask, rfl, -, -⟩ := main_frame hparty hstep
    rfl

/-- So its work stays, too. -/
theorem readerWork_eq (a : Action) (ha : a.party ≠ .reader) (hstep : step config s a = some s') :
    s'.readerWork = s.readerWork := by
  unfold readerWork
  rw [reader_eq a ha hstep]

/-- The reader leaves its loop at the next test, so its steps come to an end. The rows that it has
selected are still dispatched, and each of them has its own share of the work. -/
theorem readerWork_step (hrunning : s.running = false) (a : Action) (ha : a.party = .reader)
    (hstep : step config s a = some s') :
    s'.work + s'.readerWork + 1 ≤ s.work + s.readerWork := by
  cases a with
  | readerCheck =>
    -- with `m_running` off the check sends the reader to its end
    obtain ⟨hpc, rfl⟩ := of_readerCheck hstep
    simp only [work, readerWork, hpc, hrunning, Bool.false_eq_true, if_false]
    omega
  | readerSelect answer =>
    -- the query fails, finds nothing, or hands over at most `selectLimit` rows
    obtain ⟨hpc, rfl | rfl | ⟨rows, -, hrows, rfl⟩⟩ := of_readerSelect hstep
    · simp only [work, readerWork, hpc]
      omega
    · simp only [work, readerWork, hpc]
      omega
    · have hlimit : rows.length ≤ Database.selectLimit := hrows.2.trans_le (Nat.min_le_left _ _)
      simp only [work, readerWork, hpc]
      omega
  | readerRow testData ok =>
    -- one row becomes a task, or all rows that are left are dropped
    obtain ⟨row, rows, hpc, ⟨-, rfl⟩ | ⟨-, rfl⟩⟩ := of_readerRow hstep
    · simp only [work, readerWork, hpc, List.length_cons]
      omega
    · simp only [work, readerWork, hpc, List.length_cons]
      omega
  | readerAdd =>
    -- the row turns into a task of the pool, which weighs no more
    obtain ⟨t, rows, hpc, rfl⟩ := of_readerAdd hstep
    simp only [work, readerWork, hpc, TaskMgr.add_pool, List.map_append, List.sum_append,
      List.map_singleton, List.sum_singleton, taskWork]
    omega
  -- the list of rows is used up
  | readerRowsEnd =>
    obtain ⟨hpc, rfl⟩ := of_readerRowsEnd hstep
    simp only [work, readerWork, hpc, List.length_nil]
    omega
  | _ => cases ha

/-- `m_running` is set once. Only `main` clears it, and nobody sets it again. -/
theorem running_step (hrunning : s.running = false) (a : Action)
    (hstep : step config s a = some s') : s'.running = false := by
  cases hparty : a.party with
  -- only `mainDbStop` writes the flag, and it writes `false`
  | frontEnd =>
    obtain ⟨db, rfl⟩ := frontEnd_frame hparty hstep
    exact hrunning
  | reader =>
    obtain ⟨reader, nextAddr, db, tasks, added, rfl⟩ := reader_frame hparty hstep
    exact hrunning
  | core =>
    obtain ⟨i, c, c', tasks, taken, finishTask, reported, -, -, rfl⟩ := core_frame hparty hstep
    exact hrunning
  | writer =>
    obtain ⟨writer, finishTask, db, written, rfl⟩ := writer_frame hparty hstep
    exact hrunning
  | main =>
    cases a with
    | mainDbStop => rw [(of_mainDbStop hstep).2]
    | mainExit => rw [(of_mainExit hstep).2]; exact hrunning
    | mainPush => obtain ⟨n, -, rfl⟩ := of_mainPush hstep; exact hrunning
    | mainJoinCores => rw [(of_mainJoinCores hstep).2.2]; exact hrunning
    | mainDbMarker => rw [(of_mainDbMarker hstep).2]; exact hrunning
    | mainJoinReader => rw [(of_mainJoinReader hstep).2.2]; exact hrunning
    | mainJoinWriter => rw [(of_mainJoinWriter hstep).2.2]; exact hrunning
    | _ => cases hparty

/-- A step of a thread makes the work that is left smaller. -/
theorem work_lt (hrunning : s.running = false) (a : Action) (ha : a.party ≠ .frontEnd)
    (hstep : step config s a = some s') :
    s'.work + s'.readerWork + 1 ≤ s.work + s.readerWork := by
  cases hparty : a.party with
  | frontEnd => exact absurd hparty ha
  | reader => exact readerWork_step hrunning a hparty hstep
  | core =>
    rw [readerWork_eq a (by simp only [hparty, ne_eq, reduceCtorEq, not_false_eq_true]) hstep]
    have hwork := core_work a hparty hstep
    omega
  | writer =>
    rw [readerWork_eq a (by simp only [hparty, ne_eq, reduceCtorEq, not_false_eq_true]) hstep]
    have hwork := writer_work a hparty hstep
    omega
  | main =>
    rw [readerWork_eq a (by simp only [hparty, ne_eq, reduceCtorEq, not_false_eq_true]) hstep]
    have hwork := main_work a hparty hstep
    omega

/-- The end of a run that can be taken. -/
theorem exists_run_of_isSome (db : Database) (cores : ℕ) (actions : List Action)
    (h : (run (step {}) (start db cores) actions).isSome = true) :
    ∃ s, run (step {}) (start db cores) actions = some s := Option.isSome_iff_exists.mp h

/-- One submission is dispatched, judged and written. -/
theorem work_le_one :
    (dispatch ++ judgeAndWrite).countP (fun a => a.party.works) = 6 ∧
      ∃ s, run (step {}) (start oneSubmission 1) (dispatch ++ judgeAndWrite) = some s ∧
        (dispatch ++ judgeAndWrite).countP (fun a => a.party.works) + s.work ≤
          2 * 1 + 8 + 12 * s.added.length := by
  obtain ⟨s, hrun⟩ := exists_run_of_isSome oneSubmission 1 (dispatch ++ judgeAndWrite) (by decide)
  exact ⟨by decide, s, hrun, work_le hrun⟩

end State

end OnlineJudger
