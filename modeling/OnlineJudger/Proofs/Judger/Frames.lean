import OnlineJudger.Proofs.Judger.Steps

/-!
# `OnlineJudger.Proofs.Judger.Frames`: what each thread leaves alone

Each action belongs to one party, and a party writes to a few fields of the state only. A proof
about one party takes the steps of the others from here, and does not go through their actions.
-/

set_option autoImplicit false

namespace OnlineJudger

/-! ### The tasks in a queue -/

/-- The tasks in a queue without the exit markers. The bookkeeping of the pipeline counts these
only, since a marker is no task. -/
def realTasks (q : TaskMgr (Option TaskObj)) : List TaskObj := q.pool.filterMap id

/-- A task is added behind the others. -/
theorem realTasks_add (q : TaskMgr (Option TaskObj)) (t : TaskObj) :
    realTasks (q.add (some t)) = realTasks q ++ [t] := by
  rw [realTasks, TaskMgr.add_pool, List.filterMap_append]
  rfl

/-- A marker that is taken changes nothing for the tasks. -/
theorem realTasks_get_none {q q' : TaskMgr (Option TaskObj)} (h : q.get = some (none, q')) :
    realTasks q' = realTasks q := by
  rw [realTasks, realTasks, TaskMgr.pool_of_get h]
  rfl

/-- The task that is taken was the first one. -/
theorem realTasks_get_some {q q' : TaskMgr (Option TaskObj)} {t : TaskObj}
    (h : q.get = some (some t, q')) : realTasks q = t :: realTasks q' := by
  rw [realTasks, realTasks, TaskMgr.pool_of_get h]
  rfl

/-! ### The parties -/

/-- The parties that take the actions. The front end stands for the users and the web pages, and the
others are threads of the judge. -/
inductive Party where
  | frontEnd
  | reader
  | core
  | writer
  | main

/-- The party that takes an action. `onFinishTask` runs on the thread of its core, so the queue of
the writer is filled by the cores. -/
def Action.party : Action → Party
  | .submit _ | .rejudge _ => .frontEnd
  | .readerCheck | .readerSelect _ | .readerRow _ _ | .readerAdd | .readerRowsEnd => .reader
  | .coreGet _ | .coreFinish _ _ | .coreCleanUp _ => .core
  | .writerCheck | .writerGet | .writerUpdate _ | .writerQuery _ => .writer
  | .mainExit | .mainPush | .mainJoinCores | .mainDbStop | .mainDbMarker | .mainJoinReader
  | .mainJoinWriter => .main

namespace State

variable {config : Config} {s s' : State} {a : Action}

/-- The front end writes to the database only. -/
theorem frontEnd_frame (ha : a.party = .frontEnd) (hstep : step config s a = some s') :
    ∃ db, s' = { s with db } := by
  cases a with
  | submit row =>
    obtain ⟨_, -, rfl⟩ := of_submit hstep
    exact ⟨_, rfl⟩
  | rejudge id => exact ⟨_, of_rejudge hstep⟩
  | _ => cases ha

/-- The reader writes to the database and to the queue of the cores. It is the only one that makes
task objects. -/
theorem reader_frame (ha : a.party = .reader) (hstep : step config s a = some s') :
    ∃ reader nextAddr db tasks added, s' = { s with reader, nextAddr, db, tasks, added } := by
  cases a with
  | readerCheck =>
    obtain ⟨-, rfl⟩ := of_readerCheck hstep
    exact ⟨_, _, _, _, _, rfl⟩
  | readerSelect answer =>
    obtain ⟨-, rfl | rfl | ⟨rows, -, -, rfl⟩⟩ := of_readerSelect hstep <;>
      exact ⟨_, _, _, _, _, rfl⟩
  | readerRow testData ok =>
    obtain ⟨row, rows, -, ⟨-, rfl⟩ | ⟨-, rfl⟩⟩ := of_readerRow hstep <;>
      exact ⟨_, _, _, _, _, rfl⟩
  | readerAdd =>
    obtain ⟨t, rows, -, rfl⟩ := of_readerAdd hstep
    exact ⟨_, _, _, _, _, rfl⟩
  | readerRowsEnd =>
    obtain ⟨-, rfl⟩ := of_readerRowsEnd hstep
    exact ⟨_, _, _, _, _, rfl⟩
  | _ => cases ha

/-- A core moves that has not ended. It takes from the one queue and adds to the other, and it does
not touch the database. -/
theorem core_frame (ha : a.party = .core) (hstep : step config s a = some s') :
    ∃ i c c' tasks taken finishTask reported, s.cores[i]? = some c ∧ c ≠ .exited ∧
      s' = { s with cores := s.cores.set i c', tasks, taken, finishTask, reported } := by
  cases a with
  | coreGet i =>
    obtain ⟨hpc, task?, tasks, -, hs'⟩ := of_coreGet hstep
    cases task? <;> exact ⟨i, _, _, _, _, _, _, hpc, CorePc.noConfusion, hs'⟩
  | coreFinish i env =>
    obtain ⟨t, hpc, rfl⟩ := of_coreFinish hstep
    exact ⟨i, _, _, _, _, _, _, hpc, CorePc.noConfusion, rfl⟩
  | coreCleanUp i =>
    obtain ⟨t, ok, hpc, rfl⟩ := of_coreCleanUp hstep
    exact ⟨i, _, _, _, _, _, _, hpc, CorePc.noConfusion, rfl⟩
  | _ => cases ha

/-- The writer takes from its queue and writes to the database. -/
theorem writer_frame (ha : a.party = .writer) (hstep : step config s a = some s') :
    ∃ writer finishTask db written, s' = { s with writer, finishTask, db, written } := by
  cases a with
  | writerCheck =>
    obtain ⟨-, rfl⟩ := of_writerCheck hstep
    exact ⟨_, _, _, _, rfl⟩
  | writerGet =>
    obtain ⟨-, task?, finishTask, -, hs'⟩ := of_writerGet hstep
    cases task? <;> exact ⟨_, _, _, _, hs'⟩
  | writerUpdate ok =>
    obtain ⟨t, -, rfl⟩ := of_writerUpdate hstep
    exact ⟨_, _, _, _, rfl⟩
  | writerQuery ok =>
    obtain ⟨t, statement, statements, -, rfl⟩ := of_writerQuery hstep
    exact ⟨_, _, _, _, rfl⟩
  | _ => cases ha

/-- `main` moves no task. It pushes markers only, so both queues keep their tasks, and the database
and the other threads are not touched. -/
theorem main_frame (ha : a.party = .main) (hstep : step config s a = some s') :
    ∃ main running tasks finishTask, s' = { s with main, running, tasks, finishTask } ∧
      realTasks tasks = realTasks s.tasks ∧ realTasks finishTask = realTasks s.finishTask := by
  cases a with
  | mainExit =>
    obtain ⟨-, rfl⟩ := of_mainExit hstep
    exact ⟨_, _, _, _, rfl, rfl, rfl⟩
  | mainPush =>
    obtain ⟨n, -, rfl⟩ := of_mainPush hstep
    exact ⟨_, _, _, _, rfl, rfl, rfl⟩
  | mainJoinCores =>
    obtain ⟨-, -, rfl⟩ := of_mainJoinCores hstep
    exact ⟨_, _, _, _, rfl, rfl, rfl⟩
  | mainDbStop =>
    obtain ⟨-, rfl⟩ := of_mainDbStop hstep
    exact ⟨_, _, _, _, rfl, rfl, rfl⟩
  | mainDbMarker =>
    obtain ⟨-, rfl⟩ := of_mainDbMarker hstep
    exact ⟨_, _, _, _, rfl, rfl, rfl⟩
  | mainJoinReader =>
    obtain ⟨-, -, rfl⟩ := of_mainJoinReader hstep
    exact ⟨_, _, _, _, rfl, rfl, rfl⟩
  | mainJoinWriter =>
    obtain ⟨-, -, rfl⟩ := of_mainJoinWriter hstep
    exact ⟨_, _, _, _, rfl, rfl, rfl⟩
  | _ => cases ha

end State

end OnlineJudger
