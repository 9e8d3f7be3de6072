import OnlineJudger.Judger.Pipeline
import OnlineJudger.Lib.Slots
import OnlineJudger.Proofs.Judger.Phases

/-!
# `OnlineJudger.Proofs.Judger.System`: the threads refine the pipeline

`State.places` reads off a state where the tasks are. `step_refines` says what a step can do
to them: nothing (`Stays`), or one move of the pipeline. So every run of the threads is a run
of the `Pipeline` (`exists_pipeline`), and the bookkeeping of the pipeline holds in every
reachable state (`tasks_conserved`).
-/

set_option autoImplicit false

namespace OnlineJudger

open Lib Relation

/-! ### Reading the places off a state -/

/-- The task in `judge`, up to the finish callback. -/
def CorePc.judgingAddr : CorePc → Option ℕ
  | .judging task => some task.addr
  | _ => none

/-- The task between `getFinishTask` and `updateSolution`. -/
def WriterPc.held : WriterPc → Option TaskObj
  | .holding task => some task
  | _ => none

namespace State

/-- Where the tasks are, read off a state. The exit markers are left out, and a core that cleans up
has no task any more. -/
def places (s : State) : Places TaskObj ℕ where
  waiting := realTasks s.tasks
  taken := s.taken
  judging := s.cores.filterMap CorePc.judgingAddr
  reported := s.reported
  finished := realTasks s.finishTask
  held := s.writer.held
  written := s.written

/-! ### What a step does to the tasks -/

/-- The task stays where it is. A task that the reader is about to add is new, which its address
says. -/
structure Stays (s s' : State) : Prop where
  places : s'.places = s.places
  added : s'.added = s.added
  nextAddr : s.nextAddr ≤ s'.nextAddr
  adding : ∀ t rows, s'.reader = .adding t rows →
    s.reader = .adding t rows ∨ (t.addr = s.nextAddr ∧ s.nextAddr < s'.nextAddr)

/-- A step that changes none of the places. -/
theorem Stays.of_eq {s s' : State} (hplaces : s'.places = s.places) (hadded : s'.added = s.added)
    (haddr : s'.nextAddr = s.nextAddr) (hreader : s'.reader = s.reader) : Stays s s' :=
  ⟨hplaces, hadded, Nat.le_of_eq haddr.symm, fun _ _ h => .inl (hreader ▸ h)⟩

/-- The state belongs to the pipeline: it has the same tasks at the same places. This is the
relation of the refinement. -/
structure Represents (s : State) (p : Pipeline TaskObj.addr) : Prop where
  places : p.toPlaces = s.places
  added : s.added = s.taken ++ realTasks s.tasks
  fresh : ∀ t ∈ s.added, t.addr < s.nextAddr
  adding : ∀ t rows, s.reader = .adding t rows →
    t.addr < s.nextAddr ∧ ∀ t' ∈ s.added, t'.addr ≠ t.addr

/-- The state still belongs to the same pipeline. -/
theorem Represents.of_stays {s s' : State} {p : Pipeline TaskObj.addr} (h : Represents s p)
    (hs : Stays s s') : Represents s' p := by
  have htaken : s'.taken = s.taken := congrArg Places.taken hs.places
  have hwaiting : realTasks s'.tasks = realTasks s.tasks := congrArg Places.waiting hs.places
  refine ⟨h.places.trans hs.places.symm, ?_, ?_, ?_⟩
  · rw [hs.added, htaken, hwaiting, h.added]
  · intro t ht
    exact Nat.lt_of_lt_of_le (h.fresh t (hs.added ▸ ht)) hs.nextAddr
  · intro t rows hpc
    rw [hs.added]
    rcases hs.adding t rows hpc with hpc | ⟨heq, hlt⟩
    · obtain ⟨hlt, hne⟩ := h.adding t rows hpc
      exact ⟨Nat.lt_of_lt_of_le hlt hs.nextAddr, hne⟩
    · refine ⟨heq ▸ hlt, ?_⟩
      intro t' ht'
      exact heq ▸ Nat.ne_of_lt (h.fresh t' ht')

variable {config : Config} {s s' : State} {p : Pipeline TaskObj.addr}

/-- The judged tasks when one core changes. -/
theorem judging_set {i : ℕ} {c : CorePc} (hc : s.cores[i]? = some c) (c' : CorePc) :
    (((s.cores.set i c').filterMap CorePc.judgingAddr : List ℕ) : Multiset ℕ) +
        c.judgingAddr.toList = s.places.judging + c'.judgingAddr.toList :=
  coe_filterMap_set CorePc.judgingAddr hc c'

/-- A core that neither takes nor reports a task. -/
theorem stays_core {i : ℕ} {c c' : CorePc} (hc : s.cores[i]? = some c)
    (h : c.judgingAddr = none) (h' : c'.judgingAddr = none) {tasks : TaskMgr (Option TaskObj)}
    (htasks : realTasks tasks = realTasks s.tasks) :
    Stays s { s with cores := s.cores.set i c', tasks } := by
  have hjudging := judging_set hc c'
  rw [h, h', Option.toList_none, Multiset.coe_nil, add_zero, add_zero] at hjudging
  refine Stays.of_eq ?_ rfl rfl rfl
  simp only [places, htasks]
  rw [hjudging]
  rfl

/-- `addTask` is the move by which a task comes in. The task is a new one, since no task that was
added has its address. -/
theorem adds_refines (h : Represents s p) (hstep : s.readerAdd = some s') :
    ∃ p', p.Next p' ∧ Represents s' p' := by
  obtain ⟨t, rows, hpc, rfl⟩ := of_readerAdd hstep
  obtain ⟨hlt, hne⟩ := h.adding t rows hpc
  obtain ⟨places, nodup, taken_eq, reported_eq⟩ := p
  obtain rfl : places = s.places := h.places
  -- the reader holds an object that was never added
  have hnew : t.addr ∉ (s.taken ++ realTasks s.tasks).map TaskObj.addr := by
    rw [← h.added]
    intro hmem
    obtain ⟨t', ht', heq⟩ := List.mem_map.mp hmem
    exact hne t' ht' heq
  refine ⟨_, .add (t := t) hnew, ?_, ?_, ?_, fun _ _ hpc => ReaderPc.noConfusion hpc⟩
  · simp only [Pipeline.add, State.places, realTasks_add]
  · simp only [realTasks_add, h.added, List.append_assoc]
  · intro t' ht'
    rcases List.mem_append.mp ht' with ht' | ht'
    · exact h.fresh t' ht'
    · rw [List.mem_singleton.mp ht']
      exact hlt

/-- `get` of a core is the move by which it takes the task in front. -/
theorem takes_refines (h : Represents s p) {i : ℕ} {t : TaskObj}
    {tasks : TaskMgr (Option TaskObj)} (hpc : s.cores[i]? = some .getting)
    (hget : s.tasks.get = some (some t, tasks)) :
    ∃ p', p.Next p' ∧ Represents
      { s with cores := s.cores.set i (.judging t), tasks, taken := s.taken ++ [t] } p' := by
  obtain ⟨places, nodup, taken_eq, reported_eq⟩ := p
  obtain rfl : places = s.places := h.places
  have hwaiting := realTasks_get_some hget
  -- the core judged nothing before, so one address joins
  have hjudging := judging_set hpc (.judging t)
  simp only [CorePc.judgingAddr, Option.toList_none, Option.toList_some, Multiset.coe_nil,
    Multiset.coe_singleton, add_zero] at hjudging
  refine ⟨_, .take (t := t) hwaiting, ?_, ?_, h.fresh, h.adding⟩
  · simp only [Pipeline.take, State.places] at hjudging ⊢
    rw [hjudging, add_comm, Multiset.singleton_add]
  · simp only [h.added, hwaiting, List.append_assoc, List.singleton_append]

/-- The finish callback is the move by which a task is reported. -/
theorem reports_refines (h : Represents s p) {i : ℕ} {env : JudgeEnv}
    (hstep : s.coreFinish config i env = some s') : ∃ p', p.Next p' ∧ Represents s' p' := by
  obtain ⟨t, hpc, rfl⟩ := of_coreFinish hstep
  obtain ⟨places, nodup, taken_eq, reported_eq⟩ := p
  obtain rfl : places = s.places := h.places
  have hjudging := judging_set hpc (.cleaning t (JudgeCore.doCleanUp env))
  simp only [CorePc.judgingAddr, Option.toList_none, Option.toList_some, Multiset.coe_nil,
    Multiset.coe_singleton, add_zero] at hjudging
  -- the address leaves, and `judged` keeps it
  have hcons : s.places.judging = (judged config env t).addr ::ₘ
      (((s.cores.set i (.cleaning t (JudgeCore.doCleanUp env))).filterMap
        CorePc.judgingAddr : List ℕ) : Multiset ℕ) := by
    rw [← hjudging, add_comm, Multiset.singleton_add]
    rfl
  refine ⟨_, .report (t := judged config env t) hcons, ?_, h.added, h.fresh, h.adding⟩
  simp only [Pipeline.report, State.places, realTasks_add]

/-- `getFinishTask` is the move by which the writer fetches. -/
theorem fetches_refines (h : Represents s p) {t : TaskObj}
    {finishTask : TaskMgr (Option TaskObj)} (hpc : s.writer = .getting)
    (hget : s.finishTask.get = some (some t, finishTask)) :
    ∃ p', p.Next p' ∧ Represents { s with writer := .holding t, finishTask } p' := by
  obtain ⟨places, nodup, taken_eq, reported_eq⟩ := p
  obtain rfl : places = s.places := h.places
  have hheld : s.places.held = none := by
    simp only [State.places, hpc, WriterPc.held]
  exact ⟨_, .fetch (t := t) hheld (realTasks_get_some hget), rfl, h.added, h.fresh, h.adding⟩

/-- `updateSolution` is the move by which a task is written. -/
theorem writes_refines (h : Represents s p) {ok : Bool}
    (hstep : s.writerUpdate config ok = some s') : ∃ p', p.Next p' ∧ Represents s' p' := by
  obtain ⟨t, hpc, rfl⟩ := of_writerUpdate hstep
  obtain ⟨places, nodup, taken_eq, reported_eq⟩ := p
  obtain rfl : places = s.places := h.places
  have hheld : s.places.held = some t := by
    simp only [State.places, hpc, WriterPc.held]
  exact ⟨_, .write (t := t) hheld, rfl, h.added, h.fresh, h.adding⟩

/-- A step changes nothing about the tasks, or it is one move of the pipeline. One case for each
action; most of them only change where a thread stands. -/
theorem step_refines (a : Action) (h : Represents s p) (hstep : step config s a = some s') :
    Stays s s' ∨ ∃ p', p.Next p' ∧ Represents s' p' := by
  cases ha : a.party with
  | frontEnd =>
    obtain ⟨db, rfl⟩ := frontEnd_frame ha hstep
    exact .inl (.of_eq rfl rfl rfl rfl)
  | reader =>
    cases a with
    | readerCheck =>
      obtain ⟨-, rfl⟩ := of_readerCheck hstep
      refine .inl ⟨rfl, rfl, Nat.le_refl _, ?_⟩
      intro t rows hpc
      simp only [] at hpc
      split at hpc <;> simp only [reduceCtorEq] at hpc
    | readerSelect answer =>
      obtain ⟨-, rfl | rfl | ⟨rows, -, -, rfl⟩⟩ := of_readerSelect hstep
      · exact .inl ⟨rfl, rfl, Nat.le_refl _, fun _ _ hpc => ReaderPc.noConfusion hpc⟩
      · exact .inl ⟨rfl, rfl, Nat.le_refl _, fun _ _ hpc => ReaderPc.noConfusion hpc⟩
      · exact .inl ⟨rfl, rfl, Nat.le_refl _, fun _ _ hpc => ReaderPc.noConfusion hpc⟩
    | readerRow testData ok =>
      obtain ⟨row, rows, -, ⟨-, rfl⟩ | ⟨-, rfl⟩⟩ := of_readerRow hstep
      · refine .inl ⟨rfl, rfl, Nat.le_succ _, ?_⟩
        rintro t rows ⟨⟩
        -- a new object at the next address
        exact .inr ⟨rfl, Nat.lt_succ_self _⟩
      · exact .inl ⟨rfl, rfl, Nat.le_succ _, fun _ _ hpc => ReaderPc.noConfusion hpc⟩
    | readerAdd => exact .inr (adds_refines h hstep)
    | readerRowsEnd =>
      obtain ⟨-, rfl⟩ := of_readerRowsEnd hstep
      exact .inl ⟨rfl, rfl, Nat.le_refl _, fun _ _ hpc => ReaderPc.noConfusion hpc⟩
    | _ => cases ha
  | core =>
    cases a with
    | coreGet i =>
      obtain ⟨hpc, task?, tasks, hget, hs'⟩ := of_coreGet hstep
      cases task? with
      | none =>
        subst hs'
        exact .inl (stays_core hpc rfl rfl (realTasks_get_none hget))
      | some t =>
        subst hs'
        exact .inr (takes_refines h hpc hget)
    | coreFinish i env => exact .inr (reports_refines h hstep)
    | coreCleanUp i =>
      obtain ⟨t, ok, hpc, rfl⟩ := of_coreCleanUp hstep
      refine .inl (stays_core hpc rfl ?_ rfl)
      cases ok <;> rfl
    | _ => cases ha
  | writer =>
    cases a with
    | writerCheck =>
      obtain ⟨hpc, rfl⟩ := of_writerCheck hstep
      refine .inl (.of_eq ?_ rfl rfl rfl)
      simp only [places, hpc]
      cases s.running <;> rfl
    | writerGet =>
      obtain ⟨hpc, task?, finishTask, hget, hs'⟩ := of_writerGet hstep
      cases task? with
      | none =>
        subst hs'
        refine .inl (.of_eq ?_ rfl rfl rfl)
        simp only [places, hpc, realTasks_get_none hget, WriterPc.held]
      | some t =>
        subst hs'
        exact .inr (fetches_refines h hpc hget)
    | writerUpdate ok => exact .inr (writes_refines h hstep)
    | writerQuery ok =>
      obtain ⟨t, statement, statements, hpc, rfl⟩ := of_writerQuery hstep
      refine .inl (.of_eq ?_ rfl rfl rfl)
      simp only [places, hpc]
      split <;> rfl
    | _ => cases ha
  | main =>
    obtain ⟨main, running, tasks, finishTask, rfl, htasks, hfinish⟩ := main_frame ha hstep
    refine .inl (.of_eq ?_ rfl rfl rfl)
    simp only [places, htasks, hfinish]

/-! ### Every run is a run of the pipeline -/

/-- At the start there is no task. -/
theorem represents_start (db : Database) (cores : ℕ) :
    Represents (start db cores) Pipeline.empty := by
  have hcores : (List.replicate cores CorePc.getting).filterMap CorePc.judgingAddr = [] :=
    List.filterMap_replicate_of_none rfl
  refine ⟨?_, rfl, ?_, fun _ _ hpc => ReaderPc.noConfusion hpc⟩
  · simp only [Pipeline.empty, places, start, hcores]
    rfl
  · intro t ht
    exact absurd ht List.not_mem_nil

/-- A run from a reachable state leads to a reachable state. -/
theorem Reachable.trans (h : Reachable config s) {actions : List Action}
    (hrun : run (step config) s actions = some s') : Reachable config s' := by
  obtain ⟨db, cores, before, hbefore⟩ := h
  exact ⟨db, cores, before ++ actions, run_append_eq_some.mpr ⟨s, hbefore, hrun⟩⟩

/-- So does a step. -/
theorem Reachable.step (h : Reachable config s) {a : Action}
    (hstep : State.step config s a = some s') : Reachable config s' :=
  h.trans (run_cons_eq_some.mpr ⟨s', hstep, run_nil s'⟩)

/-- A reachable state belongs to a pipeline that its moves have brought about. By induction on the
run, with `step_refines`. -/
theorem exists_pipeline (h : Reachable config s) :
    ∃ p : Pipeline TaskObj.addr, ReflTransGen Pipeline.Next Pipeline.empty p ∧ Represents s p := by
  obtain ⟨db, cores, actions, hrun⟩ := h
  refine run_refines ?_ (represents_start db cores) hrun
  intro s a s' p hp hstep
  rcases step_refines a hp hstep with hstays | ⟨p', hnext, hp'⟩
  · exact ⟨p, .refl, hp.of_stays hstays⟩
  · exact ⟨p', .single hnext, hp'⟩

/-! ### The bookkeeping of the threads -/

/-- What holds of the tasks in every reachable state. -/
structure TasksConserved (s : State) : Prop where
  /-- A task that was added is in one place: it waits in `m_tasks`, it is being judged and not
  reported, it waits in `m_finishTask`, the writer holds it, or it is written. -/
  onePlace : ∀ t ∈ s.added, (s.places.keys TaskObj.addr).count t.addr = 1
  /-- A task that a core has taken is being judged or has been reported once. -/
  reportedOnce : ∀ t ∈ s.taken,
    s.places.judging.count t.addr + (s.reported.map TaskObj.addr).count t.addr = 1
  /-- Only a task that was taken is reported. -/
  reportedTaken : ∀ t ∈ s.reported, t.addr ∈ s.taken.map TaskObj.addr
  /-- No task is reported twice. -/
  reportedNodup : (s.reported.map TaskObj.addr).Nodup
  /-- No task is written twice. -/
  writtenNodup : (s.written.map TaskObj.addr).Nodup
  /-- Only what was reported is written, in the same order. -/
  writtenPrefix : s.written <+: s.reported
  /-- The cores take the tasks in the order in which they were added. -/
  inOrder : s.added = s.taken ++ realTasks s.tasks
  /-- A `NULL` is in `m_finishTask` only when `DBManager::stop` has pushed it. -/
  noNull : none ∈ s.finishTask.pool → s.main.afterMarker = true

/-- What was reported is written, held by the writer or waits in `m_finishTask`, in this
order. -/
theorem Represents.reported_eq (h : Represents s p) :
    s.reported = s.written ++ s.writer.held.toList ++ realTasks s.finishTask := by
  have hp := p.reported_eq
  rw [h.places] at hp
  exact hp

/-- The bookkeeping of the pipeline, read off the threads. Only the last part, on the marker of the
writer, is a fact about the threads that the pipeline does not know. -/
theorem Represents.conserved (h : Represents s p)
    (hnull : none ∈ s.finishTask.pool → s.main.afterMarker = true) : TasksConserved s := by
  have hreported := h.reported_eq
  obtain ⟨places, nodup, taken_eq, reported_eq⟩ := p
  obtain rfl : places = s.places := h.places
  -- the bookkeeping of the pipeline, read at the places of the state
  let p : Pipeline TaskObj.addr := ⟨s.places, nodup, taken_eq, reported_eq⟩
  refine ⟨?_, fun t ht => p.count_judging_add_reported ht, ?_, p.reported_nodup, p.written_nodup,
    ?_, h.added, hnull⟩
  · intro t ht
    refine p.count_keys (t := t) ?_
    rw [h.added] at ht
    exact ht
  · intro t ht
    have hmem : t.addr ∈ s.places.judging + (s.reported.map TaskObj.addr : Multiset ℕ) :=
      Multiset.mem_add.mpr (.inr (Multiset.mem_coe.mpr (List.mem_map_of_mem ht)))
    rw [show s.places.judging + (s.reported.map TaskObj.addr : Multiset ℕ) =
      (s.taken.map TaskObj.addr : Multiset ℕ) from taken_eq.symm] at hmem
    exact Multiset.mem_coe.mp hmem
  · refine ⟨s.writer.held.toList ++ realTasks s.finishTask, ?_⟩
    rw [← List.append_assoc, hreported]

/-- In every reachable state the tasks are conserved: each task that was added is waiting, is held
by one core, waits for the writer, is held by the writer, or has been written, and it is in one of
these places only. In every `judge` call the finish callback is called exactly once, on the error
paths too. -/
theorem tasks_conserved :
    (∀ (config : Config) (s : State), Reachable config s → TasksConserved s) ∧
      ∀ (config : Config) (env : JudgeEnv) (id : ℕ) (task : TaskBase) (calls : ℕ),
        (JudgeCore.judge config env id (some fun _ _ calls => calls + 1) task calls).2 =
          calls + 1 := by
  refine ⟨?_, fun _ _ _ _ _ => rfl⟩
  intro config s h
  obtain ⟨p, -, hp⟩ := exists_pipeline h
  exact hp.conserved (phases_of_reachable h).null

/-! ### A run with one submission -/

/-- A row that waits to be judged. -/
def pendingRow : SelectedRow where
  solutionID := 1000
  problemID := 1
  userID := "user".toList
  language := 0
  timeLimit := 1
  memoryLimit := 64
  result := 0

/-- The database with this row only. -/
def oneSubmission : Database where
  solution := [{
    solutionID := 1000, problemID := 1, userID := "user".toList, language := 0, result := 0 }]
  problem := [{ problemID := 1, timeLimit := 1, memoryLimit := 64 }]
  users := [{ userID := "user".toList }]
  solution_nodup := by decide
  problem_nodup := by decide

/-- The compiler rejects the program. -/
def rejectedProgram : JudgeEnv where
  compile := {
    codeFileExists := true, created := true, exitCode := 1, output := some "error".toList }
  test _ := {
    run := .createFailed, srcFile := none, destFile := none, removeOutput := fun _ => .notFound }
  removeCode _ := .deleted
  removeCompilerOutput _ := .deleted
  removeExeOutput _ := .notFound
  removeExe _ := .notFound

/-- The reader dispatches the submission. -/
def dispatch : List Action :=
  [.readerCheck, .readerSelect (.rows [pendingRow]), .readerRow [] true, .readerAdd]

/-- The only core judges the submission, and the writer writes the verdict. -/
def judgeAndWrite : List Action :=
  [.coreGet 0, .coreFinish 0 rejectedProgram, .coreCleanUp 0, .writerCheck, .writerGet,
    .writerUpdate true]

/-! ### A run with two submissions -/

/-- A second row waits. -/
def twoSubmissions : Database where
  solution := oneSubmission.solution ++ [{
    solutionID := 1001, problemID := 1, userID := "user".toList, language := 0, result := 0 }]
  problem := oneSubmission.problem
  users := oneSubmission.users
  solution_nodup := by decide
  problem_nodup := oneSubmission.problem_nodup

/-- Two cores judge the two submissions at the same time. The second one is ready first. -/
def judgeBoth : List Action :=
  [.readerCheck, .readerSelect (.rows [pendingRow, { pendingRow with solutionID := 1001 }]),
    .readerRow [] true, .readerAdd, .readerRow [] true, .readerAdd, .coreGet 0, .coreGet 1,
    .coreFinish 1 rejectedProgram, .coreFinish 0 rejectedProgram, .coreCleanUp 1, .coreCleanUp 0,
    .writerCheck, .writerGet, .writerUpdate true] ++ List.replicate 6 (.writerQuery true) ++
    [.writerCheck, .writerGet, .writerUpdate true]

/-- The tasks are taken in the order of the rows, and written in the order of their reports. -/
theorem tasks_conserved_two :
    ∃ s, run (step {}) (start twoSubmissions 2) judgeBoth = some s ∧
      s.taken.map TaskObj.addr = [0, 1] ∧ s.written.map TaskObj.addr = [1, 0] ∧
      TasksConserved s := by
  have hend : (run (step {}) (start twoSubmissions 2) judgeBoth).map
      (fun s => (s.taken.map TaskObj.addr, s.written.map TaskObj.addr)) =
        some ([0, 1], [1, 0]) := by decide
  obtain ⟨s, hrun, hs⟩ := Option.map_eq_some_iff.mp hend
  rw [Prod.mk.injEq] at hs
  exact ⟨s, hrun, hs.1, hs.2, tasks_conserved.1 {} s ⟨_, _, _, hrun⟩⟩

end State

end OnlineJudger
