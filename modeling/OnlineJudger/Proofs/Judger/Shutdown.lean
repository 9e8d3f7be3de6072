import OnlineJudger.Proofs.Judger.System

/-!
# `OnlineJudger.Proofs.Judger.Shutdown`: the verdicts at the end

`DBManager::stop` sets `m_running` to false and pushes its `NULL` in front of the finished
tasks. The writer leaves its loop at the next test of `m_running` or at the `NULL`, so it
fetches no task any more. `StopRun` is a run through `stop`, and `reported_eq_of_stop` says
what becomes of the reported tasks: they are written, except for those that are in
`m_finishTask` when the `NULL` is pushed.

The main result is `stop_loses_none_iff`.
-/

set_option autoImplicit false

namespace OnlineJudger.State

open Lib

variable {config : Config} {s called pushing returned : State}

/-- A run through `DBManager::stop`. It is called in the state `called`, pushes its `NULL` in
the state `pushing`, and has returned in the state `returned`. -/
structure StopRun (config : Config) (called pushing returned : State) : Prop where
  reachable : Reachable config called
  call : ∃ actions, run (step config) called (.mainDbStop :: actions) = some pushing
  push : ∃ actions, run (step config) pushing (.mainDbMarker :: actions) = some returned
  stopped : returned.main = .stopped

/-! ### What becomes of the reported tasks -/

/-- When `DBManager::stop` has returned, the writer holds no task. -/
theorem reported_eq_of_stopped (h : Reachable config s) (hstopped : s.main = .stopped) :
    s.reported = s.written ++ realTasks s.finishTask := by
  obtain ⟨p, -, hp⟩ := exists_pipeline h
  have hheld : s.writer.held = none := by
    rw [(phases_of_reachable h).writer hstopped]
    rfl
  rw [hp.reported_eq, hheld, Option.toList_none, List.append_nil]

/-- The tasks that are reported when `stop` is called are written when it returns, except for
those that are in `m_finishTask` when it pushes its `NULL`. -/
theorem reported_eq_of_stop (h : StopRun config called pushing returned) :
    called.reported = returned.written ++ realTasks pushing.finishTask := by
  obtain ⟨⟨between, hcall⟩, ⟨after, hpush⟩⟩ := And.intro h.call h.push
  have hpushing := h.reachable.trans hcall
  have hreturned := hpushing.trans hpush
  -- the cores have ended before `stop` is called, so no task is reported in it
  have hreported : returned.reported = called.reported := by
    obtain ⟨_, hstop, -⟩ := run_cons_eq_some.mp hcall
    obtain ⟨hpc, -⟩ := of_mainDbStop hstop
    have hafter : called.main.afterCells = true := by rw [hpc]; rfl
    obtain ⟨heq, hafter⟩ := (over_run (phases_of_reachable h.reachable) hcall).cells hafter
    obtain ⟨heq', -⟩ := (over_run (phases_of_reachable hpushing) hpush).cells hafter
    exact heq'.trans heq
  -- behind the `NULL` no finished task is fetched
  have hfinished : realTasks returned.finishTask = realTasks pushing.finishTask := by
    obtain ⟨pushed, hmarker, hrest⟩ := run_cons_eq_some.mp hpush
    obtain ⟨-, rfl⟩ := of_mainDbMarker hmarker
    have hphases : Phases { pushing with
        main := .joinReader, finishTask := pushing.finishTask.addFront none } :=
      phases_step .mainDbMarker (phases_of_reachable hpushing) hmarker
    exact ((over_run hphases hrest).marker rfl).1
  rw [← hreported, reported_eq_of_stopped hreturned h.stopped, hfinished]

/-- A task that is left in `m_finishTask` is reported and never written. -/
theorem lost_of_mem_finishTask (h : StopRun config called pushing returned) {t : TaskObj}
    (ht : t ∈ realTasks pushing.finishTask) : t ∈ called.reported ∧ t ∉ returned.written := by
  have hreported := reported_eq_of_stop h
  refine ⟨hreported ▸ List.mem_append_right _ ht, ?_⟩
  -- otherwise it would be reported twice
  intro hwritten
  obtain ⟨p, -, hp⟩ := exists_pipeline h.reachable
  have hnodup := p.reported_nodup
  rw [show p.reported = called.reported from congrArg Places.reported hp.places, hreported,
    List.map_append, List.nodup_append] at hnodup
  exact hnodup.2.2 _ (List.mem_map_of_mem hwritten) _ (List.mem_map_of_mem ht) rfl

/-- `DBManager::stop` loses no verdict exactly when no finished task is in `m_finishTask` at the
moment when it pushes its `NULL`. The `NULL` goes to the front of the queue, so the writer takes it
first, leaves, and never comes to the tasks behind it. -/
theorem stop_loses_none_iff (h : StopRun config called pushing returned) :
    (∀ t ∈ called.reported, t ∈ returned.written) ↔ realTasks pushing.finishTask = [] := by
  constructor
  · intro hall
    refine List.eq_nil_iff_forall_not_mem.mpr ?_
    intro t ht
    obtain ⟨hreported, hlost⟩ := lost_of_mem_finishTask h ht
    exact hlost (hall t hreported)
  · intro hnil t ht
    rw [reported_eq_of_stop h, hnil, List.append_nil] at ht
    exact ht

/-! ### Two runs -/

/-- A run that goes through `stop` to its end. -/
theorem exists_stopRun (config : Config) (db : Database) (cores : ℕ)
    (before between after : List Action)
    (h : (run (step config) (start db cores)
      (before ++ (.mainDbStop :: between ++ .mainDbMarker :: after))).map State.main =
        some .stopped) :
    ∃ called pushing returned, run (step config) (start db cores) before = some called ∧
      run (step config) (start db cores) (before ++ .mainDbStop :: between) = some pushing ∧
      StopRun config called pushing returned := by
  obtain ⟨returned, hrun, hstopped⟩ := Option.map_eq_some_iff.mp h
  obtain ⟨called, hcalled, hrun⟩ := run_append_eq_some.mp hrun
  obtain ⟨pushing, hpushing, hreturned⟩ := run_append_eq_some.mp hrun
  exact ⟨called, pushing, returned, hcalled, run_append_eq_some.mpr ⟨called, hcalled, hpushing⟩,
    ⟨_, _, _, hcalled⟩, ⟨_, hpushing⟩, ⟨_, hreturned⟩, hstopped⟩

/-- The core judges the submission, and then `main` stops the cell. -/
def judgeAndStopCell : List Action :=
  [.coreGet 0, .coreFinish 0 rejectedProgram, .coreCleanUp 0, .mainExit, .mainPush, .coreGet 0,
    .mainJoinCores]

/-- The writer fetches the task before `stop` is called, and writes it before `stop` pushes its
`NULL`. -/
theorem stop_loses_none_fetched :
    ∃ called pushing returned, StopRun {} called pushing returned ∧
      called.reported.map TaskObj.addr = [0] ∧ ∀ t ∈ called.reported, t ∈ returned.written := by
  let before := dispatch ++ judgeAndStopCell ++ [.writerCheck, .writerGet]
  let between : List Action := .writerUpdate true :: List.replicate 6 (.writerQuery true)
  obtain ⟨called, pushing, returned, hcalled, hpushing, hstop⟩ :=
    exists_stopRun {} oneSubmission 1 before between
      [.readerRowsEnd, .readerCheck, .writerCheck, .mainJoinReader, .mainJoinWriter] (by decide)
  have hreported : (run (step {}) (start oneSubmission 1) before).map
      (fun s => s.reported.map TaskObj.addr) = some [0] := by decide
  rw [hcalled, Option.map_some, Option.some.injEq] at hreported
  have hnil : (run (step {}) (start oneSubmission 1) (before ++ .mainDbStop :: between)).map
      (fun s => realTasks s.finishTask) = some [] := by decide
  rw [hpushing, Option.map_some, Option.some.injEq] at hnil
  exact ⟨called, pushing, returned, hstop, hreported, (stop_loses_none_iff hstop).mpr hnil⟩

/-- The writer is at the test of `m_running` when `stop` is called, and leaves. The verdict stays in
`m_finishTask`, and `stop` returns without it. -/
theorem stop_loses_verdict :
    ¬ ∀ (config : Config) (called pushing returned : State),
      StopRun config called pushing returned → ∀ t ∈ called.reported, t ∈ returned.written := by
  intro hall
  let before := dispatch ++ judgeAndStopCell
  obtain ⟨called, pushing, returned, -, hpushing, hstop⟩ :=
    exists_stopRun {} oneSubmission 1 before []
      [.readerRowsEnd, .readerCheck, .writerCheck, .mainJoinReader, .mainJoinWriter] (by decide)
  have hleft : (run (step {}) (start oneSubmission 1) (before ++ [.mainDbStop])).map
      (fun s => (realTasks s.finishTask).map TaskObj.addr) = some [0] := by decide
  rw [hpushing, Option.map_some, Option.some.injEq] at hleft
  obtain ⟨t, ht, -⟩ := List.mem_map.mp (hleft ▸ List.mem_singleton_self 0)
  obtain ⟨hreported, hlost⟩ := lost_of_mem_finishTask hstop ht
  exact hlost (hall {} called pushing returned hstop t hreported)

end OnlineJudger.State
