import OnlineJudger.Proofs.Judger.JudgeCore
import OnlineJudger.Proofs.Judger.System

/-!
# `OnlineJudger.Proofs.Judger.Orphans`: the submissions that no core takes

`doRead` stores `JE_COMPILING` before it adds a task. From then on only `updateSolution` of
that task stores another result: the query does not select `JE_COMPILING`, so a solution has
at most one task in flight. `Tracked` is this invariant for one solution, and `tracked_run`
says that a run keeps it while the front end does not ask to judge the solution again.

`main` pushes the exit markers in front of the waiting tasks, and nothing stores a result for
a task that is left. `never_taken_stays_compiling` is what follows for such a task.
-/

set_option autoImplicit false

namespace OnlineJudger

open Lib

/-! ### The solutions in flight -/

/-- The solution of a task. -/
def TaskObj.solutionID (t : TaskObj) : Int := t.task.solutionID

/-- The solutions of some tasks. -/
def solutions (tasks : List TaskObj) : Multiset Int := tasks.map TaskObj.solutionID

/-- No task, no solution. -/
@[simp] theorem solutions_nil : solutions [] = 0 := rfl

/-- Two lists of tasks. -/
@[simp] theorem solutions_append (l l' : List TaskObj) :
    solutions (l ++ l') = solutions l + solutions l' := by
  rw [solutions, List.map_append, ← Multiset.coe_add]
  rfl

/-- One task in front of the others. -/
theorem solutions_cons (t : TaskObj) (l : List TaskObj) :
    solutions (t :: l) = {t.solutionID} + solutions l := by
  rw [← List.singleton_append, solutions_append]
  rfl

/-- The solution of one of the tasks. -/
theorem mem_solutions {t : TaskObj} {l : List TaskObj} (h : t ∈ l) :
    t.solutionID ∈ solutions l := Multiset.mem_coe.mpr (List.mem_map_of_mem h)

/-- The task that is about to be added. -/
def ReaderPc.adds : ReaderPc → Option TaskObj
  | .adding task _ => some task
  | _ => none

/-- The solutions of the rows that are left. -/
def ReaderPc.selected : ReaderPc → Multiset Int
  | .rows l => l.map SelectedRow.solutionID
  | .adding _ l => l.map SelectedRow.solutionID
  | _ => 0

/-- The solution of the task in `judge`, up to the finish callback. -/
def CorePc.judgingSolution : CorePc → Option Int
  | .judging task => some task.solutionID
  | _ => none

/-- A judge run keeps the solution of its task. -/
theorem judged_solutionID (config : Config) (env : JudgeEnv) (task : TaskObj) :
    (State.judged config env task).solutionID = task.solutionID :=
  congrArg Prod.fst (JudgeCore.doJudge_identity config env task.task)

namespace State

/-- The tasks that `doRead` has made of a row whose result it has set to `JE_COMPILING`. -/
def moved (s : State) : List TaskObj := s.added ++ s.reader.adds.toList

/-- The solutions with a task that is moved and not yet written. Their rows say `JE_COMPILING` as
long as the front end does not interfere. -/
def openSolutions (s : State) : Multiset Int :=
  solutions s.reader.adds.toList + solutions (realTasks s.tasks) +
    (s.cores.filterMap CorePc.judgingSolution : List Int) + solutions (realTasks s.finishTask) +
    solutions s.writer.held.toList

/-- The solutions in flight: selected, or with an open task. No solution is in flight twice. -/
def inFlight (s : State) : Multiset Int := s.openSolutions + s.reader.selected

/-- What holds of one solution: with an open task it is compiling, a selected row of it is stored,
and it is in flight once at most. -/
structure Tracked (config : Config) (id : Int) (s : State) : Prop where
  compiling : id ∈ s.openSolutions → s.db.resultOf id = some config.JE_COMPILING
  stored : id ∈ s.reader.selected → ∃ result, s.db.resultOf id = some result
  once : s.inFlight.count id ≤ 1

variable {config : Config} {id : Int} {s s' : State}

/-- Nothing is in flight at the start. -/
theorem inFlight_start (db : Database) (cores : ℕ) : (start db cores).inFlight = 0 := by
  have hcores : (List.replicate cores CorePc.getting).filterMap CorePc.judgingSolution = [] :=
    List.filterMap_replicate_of_none rfl
  simp only [inFlight, openSolutions, start, hcores]
  rfl

/-- Of a solution that is not in flight nothing has to be known. -/
theorem Tracked.of_notMem (h : id ∉ s.inFlight) : Tracked config id s := by
  rw [inFlight, Multiset.mem_add, not_or] at h
  refine ⟨fun hopen => absurd hopen h.1, fun hselected => absurd hselected h.2, ?_⟩
  rw [inFlight, Multiset.count_add, Multiset.count_eq_zero_of_notMem h.1,
    Multiset.count_eq_zero_of_notMem h.2]
  exact Nat.zero_le 1

/-- A step that brings nothing into flight and keeps the stored result. -/
theorem Tracked.of_le (h : Tracked config id s) (hopen : s'.openSolutions ≤ s.openSolutions)
    (hselected : s'.reader.selected ≤ s.reader.selected)
    (hdb : ∀ result, s.db.resultOf id = some result → s'.db.resultOf id = some result) :
    Tracked config id s' := by
  refine ⟨?_, ?_, ?_⟩
  · intro hmem
    exact hdb _ (h.compiling (Multiset.mem_of_le hopen hmem))
  · intro hmem
    obtain ⟨result, hresult⟩ := h.stored (Multiset.mem_of_le hselected hmem)
    exact ⟨result, hdb result hresult⟩
  · exact (Multiset.count_le_of_le id (add_le_add hopen hselected)).trans h.once

/-! ### The reader -/

/-- Each solution is selected at most once. -/
theorem selected_nodup {db : Database} {rows : List SelectedRow}
    (h : db.IsSelection config rows) : (ReaderPc.rows rows).selected.Nodup := by
  have hle : (ReaderPc.rows rows).selected ≤
      ((db.selectProblem config).map SelectedRow.solutionID : List Int) := by
    rw [ReaderPc.selected, ← Multiset.map_coe, ← Multiset.map_coe]
    exact Multiset.map_le_map (Multiset.coe_le.mpr h.1)
  exact Multiset.nodup_of_le hle (Multiset.coe_nodup.mpr (db.selectProblem_nodup config))

/-- A selected solution is stored with a result that waits for the judge. -/
theorem resultOf_of_mem_selected {db : Database} {rows : List SelectedRow}
    (h : db.IsSelection config rows) (hmem : id ∈ (ReaderPc.rows rows).selected) :
    ∃ result, db.resultOf id = some result ∧ config.selectable result = true := by
  obtain ⟨row, hrow, rfl⟩ := List.mem_map.mp (Multiset.mem_coe.mp hmem)
  exact ⟨row.result, db.resultOf_of_mem_selectProblem config (h.1.subset hrow)⟩

/-- The query. A solution with an open task is not selected: its result is `JE_COMPILING` as long as
the task is open, and the query does not ask for that code. -/
theorem tracked_select (hcode : config.selectable config.JE_COMPILING = false)
    (h : Tracked config id s) (hpc : s.reader = .querying) {rows : List SelectedRow}
    (hrows : s.db.IsSelection config rows) :
    Tracked config id { s with reader := .rows rows } := by
  have hopen : ({ s with reader := .rows rows } : State).openSolutions = s.openSolutions := by
    rw [openSolutions, openSolutions, hpc]
    rfl
  refine ⟨?_, ?_, ?_⟩
  · rw [hopen]
    exact h.compiling
  · intro hmem
    obtain ⟨result, hresult, -⟩ := resultOf_of_mem_selected hrows hmem
    exact ⟨result, hresult⟩
  · have honce := h.once
    rw [inFlight, Multiset.count_add] at honce
    rw [inFlight, Multiset.count_add, hopen]
    -- a selected solution has no open task, for that would have set its result
    by_cases hmem : id ∈ (ReaderPc.rows rows).selected
    · have hnot : id ∉ s.openSolutions := by
        intro hopen
        obtain ⟨result, hresult, hselectable⟩ := resultOf_of_mem_selected hrows hmem
        rw [h.compiling hopen, Option.some.injEq] at hresult
        rw [← hresult, hcode] at hselectable
        exact Bool.noConfusion hselectable
      rw [Multiset.count_eq_zero_of_notMem hnot, zero_add]
      exact Multiset.nodup_iff_count_le_one.mp (selected_nodup hrows) id
    · rw [show Multiset.count id (ReaderPc.rows rows).selected = 0 from
        Multiset.count_eq_zero_of_notMem hmem]
      omega

/-- A new task has the solution of its row. -/
theorem newTask_solutionID (testData : List Text) (row : SelectedRow) :
    (s.newTask config testData row).solutionID = row.solutionID :=
  congrArg Prod.fst (TaskBase.initializeData_identity _ config testData)

/-- A row becomes an open task, and its result becomes `JE_COMPILING`. The solution is in flight as
often as before: it was selected, and now it is open. -/
theorem tracked_row (h : Tracked config id s) {row : SelectedRow} {rows : List SelectedRow}
    (hpc : s.reader = .rows (row :: rows)) (testData : List Text) :
    Tracked config id { s with
      nextAddr := s.nextAddr + 1
      db := s.db.updateSolutionCompiling config (s.newTask config testData row).solutionID
      reader := .adding (s.newTask config testData row) rows } := by
  set s' : State := { s with
    nextAddr := s.nextAddr + 1
    db := s.db.updateSolutionCompiling config (s.newTask config testData row).solutionID
    reader := .adding (s.newTask config testData row) rows } with hs'
  have hopen : s'.openSolutions = {row.solutionID} + s.openSolutions := by
    have hadds : solutions s'.reader.adds.toList = {row.solutionID} := by
      exact congrArg singleton (newTask_solutionID testData row)
    rw [openSolutions, hadds, openSolutions, hpc]
    simp only [hs', ReaderPc.adds, Option.toList_none, solutions_nil]
    abel
  have hselected : s.reader.selected = {row.solutionID} + s'.reader.selected := by
    rw [hpc, Multiset.singleton_add]
    rfl
  have hdb : s'.db = s.db.updateSolutionCompiling config row.solutionID := by
    rw [hs', newTask_solutionID]
  refine ⟨?_, ?_, ?_⟩
  · intro hmem
    rw [hdb]
    by_cases hid : id = row.solutionID
    · subst hid
      obtain ⟨result, hresult⟩ := h.stored (by rw [hselected]; simp)
      exact s.db.resultOf_updateSolutionCompiling_self config hresult
    · rw [hopen, Multiset.mem_add, Multiset.mem_singleton] at hmem
      exact s.db.resultOf_updateSolutionCompiling_of_ne config hid
        (h.compiling (hmem.resolve_left hid))
  · intro hmem
    -- the row is never deleted, so an update keeps it stored
    obtain ⟨result, hresult⟩ := h.stored (by rw [hselected]; exact Multiset.mem_add.mpr (.inr hmem))
    rw [hdb]
    by_cases hid : id = row.solutionID
    · subst hid
      exact ⟨_, s.db.resultOf_updateSolutionCompiling_self config hresult⟩
    · exact ⟨_, s.db.resultOf_updateSolutionCompiling_of_ne config hid hresult⟩
  -- the solution is in flight as often as before: selected first, then open
  · have heq : s'.inFlight = s.inFlight := by
      rw [inFlight, inFlight, hopen, hselected]
      abel
    rw [heq]
    exact h.once

/-- The reader drops rows. -/
theorem tracked_reader (h : Tracked config id s) {pc : ReaderPc} (hadds : s.reader.adds = none)
    (hadds' : pc.adds = none) (hselected : pc.selected ≤ s.reader.selected) (addr : ℕ) :
    Tracked config id { s with nextAddr := addr, reader := pc } := by
  refine h.of_le (le_of_eq ?_) hselected fun _ hresult => hresult
  simp only [openSolutions, hadds, hadds']

/-- `addTask` moves an open task into the queue. -/
theorem open_readerAdd (hstep : s.readerAdd = some s') :
    s'.openSolutions = s.openSolutions ∧ s'.reader.selected = s.reader.selected := by
  obtain ⟨t, rows, hpc, rfl⟩ := of_readerAdd hstep
  refine ⟨?_, by rw [hpc]; rfl⟩
  simp only [openSolutions, realTasks_add, solutions_append, hpc, ReaderPc.adds,
    Option.toList_some, Option.toList_none, solutions_nil]
  abel

/-! ### The cores -/

/-- The judged solutions when one core changes. -/
theorem judgingSolution_set {i : ℕ} {c : CorePc} (hc : s.cores[i]? = some c) (c' : CorePc) :
    (((s.cores.set i c').filterMap CorePc.judgingSolution : List Int) : Multiset Int) +
        c.judgingSolution.toList =
      (s.cores.filterMap CorePc.judgingSolution : List Int) + c'.judgingSolution.toList :=
  coe_filterMap_set CorePc.judgingSolution hc c'

/-- A core changes that judges no task before and after. -/
theorem open_core {i : ℕ} {c c' : CorePc} (hc : s.cores[i]? = some c)
    (h : c.judgingSolution = none) (h' : c'.judgingSolution = none)
    {tasks : TaskMgr (Option TaskObj)} (htasks : realTasks tasks = realTasks s.tasks) :
    ({ s with cores := s.cores.set i c', tasks } : State).openSolutions = s.openSolutions := by
  have hjudging := judgingSolution_set hc c'
  rw [h, h', Option.toList_none, Multiset.coe_nil, add_zero, add_zero] at hjudging
  simp only [openSolutions, hjudging, htasks]

/-- A core takes an open task out of the queue. -/
theorem open_coreGet {i : ℕ} (hstep : s.coreGet i = some s') :
    s'.openSolutions = s.openSolutions := by
  obtain ⟨hpc, task?, tasks, hget, hs'⟩ := of_coreGet hstep
  cases task? with
  | none =>
    subst hs'
    exact open_core hpc rfl rfl (realTasks_get_none hget)
  | some t =>
    subst hs'
    have hjudging := judgingSolution_set hpc (.judging t)
    simp only [CorePc.judgingSolution, Option.toList_none, Option.toList_some, Multiset.coe_nil,
      add_zero, Multiset.coe_singleton] at hjudging
    simp only [openSolutions, hjudging, realTasks_get_some hget, solutions_cons]
    abel

/-- A core puts it, judged, into the other queue. -/
theorem open_coreFinish {i : ℕ} {env : JudgeEnv} (hstep : s.coreFinish config i env = some s') :
    s'.openSolutions = s.openSolutions := by
  obtain ⟨t, hpc, rfl⟩ := of_coreFinish hstep
  have hjudging := judgingSolution_set hpc (.cleaning t (JudgeCore.doCleanUp env))
  simp only [CorePc.judgingSolution, Option.toList_none, Option.toList_some, Multiset.coe_nil,
    add_zero, Multiset.coe_singleton] at hjudging
  simp only [openSolutions, ← hjudging, realTasks_add, solutions_append, solutions_cons,
    solutions_nil, judged_solutionID]
  abel

/-! ### The writer -/

/-- The writer takes it from there. -/
theorem open_writerGet (hstep : s.writerGet = some s') : s'.openSolutions = s.openSolutions := by
  obtain ⟨hpc, task?, finishTask, hget, hs'⟩ := of_writerGet hstep
  cases task? with
  | none =>
    subst hs'
    simp only [openSolutions, realTasks_get_none hget, hpc]
    rfl
  | some t =>
    subst hs'
    simp only [openSolutions, realTasks_get_some hget, hpc, solutions_cons, WriterPc.held,
      Option.toList_some, Option.toList_none, solutions_nil]
    abel

/-- `updateSolution` closes the task. Another task of the solution is not open, since a solution is
in flight once at most. -/
theorem tracked_update (h : Tracked config id s) {ok : Bool}
    (hstep : s.writerUpdate config ok = some s') : Tracked config id s' := by
  obtain ⟨t, hpc, hs'⟩ := of_writerUpdate hstep
  have hopen : s.openSolutions = {t.solutionID} + s'.openSolutions := by
    simp only [hs', openSolutions, hpc, WriterPc.held, Option.toList_some, Option.toList_none,
      solutions_cons, solutions_nil]
    abel
  have hselected : s'.reader.selected = s.reader.selected := by rw [hs']
  -- the solution of the task leaves, and others keep their result
  by_cases hid : id = t.solutionID
  · have heq : s.inFlight = {id} + s'.inFlight := by
      rw [inFlight, inFlight, hopen, hselected, hid, add_assoc]
    have honce := h.once
    rw [heq, Multiset.count_add, Multiset.count_singleton_self] at honce
    exact Tracked.of_notMem (Multiset.count_eq_zero.mp (by omega))
  · refine h.of_le (hopen ▸ Multiset.le_add_left _ _) hselected.le ?_
    intro result hresult
    rw [hs']
    cases ok with
    | true => exact s.db.resultOf_updateSolution_of_ne hid hresult
    | false => exact hresult

/-- The other statements do not write to `solution`. -/
theorem exec_solution (task : TaskBase) (db : Database) (statement : WriteStatement) :
    (statement.exec config task db).solution = db.solution := by
  cases statement <;> rfl

/-- Nor do they change the server. -/
theorem exec_server (task : TaskBase) (db : Database) (statement : WriteStatement) :
    (statement.exec config task db).server = db.server := by
  cases statement <;> rfl

/-- So the stored results stay. -/
theorem exec_resultOf (task : TaskBase) (db : Database) (statement : WriteStatement) (id : Int) :
    (statement.exec config task db).resultOf id = db.resultOf id := by
  rw [Database.resultOf, exec_solution, Database.resultOf]

/-! ### Every run -/

/-- Each step keeps track of a solution. The reader brings it into flight, and `updateSolution`
takes it out. -/
theorem tracked_step (hcode : config.selectable config.JE_COMPILING = false) (a : Action)
    (hother : a ≠ .rejudge id) (h : Tracked config id s) (hstep : step config s a = some s') :
    Tracked config id s' := by
  cases ha : a.party with
  | frontEnd =>
    cases a with
    | submit row =>
      obtain ⟨hnew, -, rfl⟩ := of_submit hstep
      exact h.of_le le_rfl le_rfl fun _ hresult => s.db.resultOf_submit hnew hresult
    | rejudge id' =>
      obtain rfl := of_rejudge hstep
      have hid : id ≠ id' := fun heq => hother (heq ▸ rfl)
      exact h.of_le le_rfl le_rfl fun _ hresult =>
        s.db.resultOf_rejudge_of_ne config hid hresult
    | _ => cases ha
  | reader =>
    cases a with
    | readerCheck =>
      obtain ⟨hpc, rfl⟩ := of_readerCheck hstep
      refine tracked_reader h (by rw [hpc]; rfl) ?_ ?_ s.nextAddr
      · cases s.running <;> rfl
      · cases s.running <;> exact Multiset.zero_le _
    | readerSelect answer =>
      obtain ⟨hpc, rfl | rfl | ⟨rows, -, hrows, rfl⟩⟩ := of_readerSelect hstep
      · exact tracked_reader h (by rw [hpc]; rfl) rfl (Multiset.zero_le _) s.nextAddr
      · exact tracked_reader h (by rw [hpc]; rfl) rfl (Multiset.zero_le _) s.nextAddr
      · exact tracked_select hcode h hpc hrows
    | readerRow testData ok =>
      obtain ⟨row, rows, hpc, ⟨-, rfl⟩ | ⟨-, rfl⟩⟩ := of_readerRow hstep
      · exact tracked_row h hpc testData
      · exact tracked_reader h (by rw [hpc]; rfl) rfl (Multiset.zero_le _) _
    | readerAdd =>
      obtain ⟨hopen, hselected⟩ := open_readerAdd hstep
      obtain ⟨t, rows, -, rfl⟩ := of_readerAdd hstep
      exact h.of_le hopen.le hselected.le fun _ hresult => hresult
    | readerRowsEnd =>
      obtain ⟨hpc, rfl⟩ := of_readerRowsEnd hstep
      exact tracked_reader h (by rw [hpc]; rfl) rfl (Multiset.zero_le _) s.nextAddr
    | _ => cases ha
  | core =>
    cases a with
    | coreGet i =>
      have hopen := open_coreGet hstep
      obtain ⟨-, task?, tasks, -, hs'⟩ := of_coreGet hstep
      cases task? <;> subst hs' <;> exact h.of_le hopen.le le_rfl fun _ hresult => hresult
    | coreFinish i env =>
      have hopen := open_coreFinish hstep
      obtain ⟨t, -, rfl⟩ := of_coreFinish hstep
      exact h.of_le hopen.le le_rfl fun _ hresult => hresult
    | coreCleanUp i =>
      obtain ⟨t, ok, hpc, rfl⟩ := of_coreCleanUp hstep
      have hopen : ({ s with cores := s.cores.set i (if ok then .getting else .exited) } :
          State).openSolutions = s.openSolutions :=
        open_core hpc rfl (by cases ok <;> rfl) rfl
      exact h.of_le hopen.le le_rfl fun _ hresult => hresult
    | _ => cases ha
  | writer =>
    cases a with
    | writerCheck =>
      obtain ⟨hpc, rfl⟩ := of_writerCheck hstep
      refine h.of_le (le_of_eq ?_) le_rfl fun _ hresult => hresult
      cases s.running <;> simp only [openSolutions, hpc, WriterPc.held, if_true, Bool.false_eq_true,
        if_false]
    | writerGet =>
      have hopen := open_writerGet hstep
      obtain ⟨-, task?, finishTask, -, hs'⟩ := of_writerGet hstep
      cases task? <;> subst hs' <;> exact h.of_le hopen.le le_rfl fun _ hresult => hresult
    | writerUpdate ok => exact tracked_update h hstep
    | writerQuery ok =>
      obtain ⟨t, statement, statements, hpc, rfl⟩ := of_writerQuery hstep
      refine h.of_le (le_of_eq ?_) le_rfl ?_
      · by_cases hnil : statements = [] <;>
          simp only [openSolutions, hpc, WriterPc.held, hnil, if_true, if_false]
      · intro result hresult
        cases ok with
        | true => exact (exec_resultOf ..).trans hresult
        | false => exact hresult
    | _ => cases ha
  | main =>
    obtain ⟨main, running, tasks, finishTask, rfl, htasks, hfinish⟩ := main_frame ha hstep
    refine h.of_le (le_of_eq ?_) le_rfl fun _ hresult => hresult
    simp only [openSolutions, htasks, hfinish]

/-- A run keeps track of a solution, unless the front end asks to judge it again. By induction on
the run. -/
theorem tracked_run (hcode : config.selectable config.JE_COMPILING = false) {actions : List Action}
    (hrejudge : .rejudge id ∉ actions) (h : Tracked config id s)
    (hrun : run (step config) s actions = some s') : Tracked config id s' := by
  have hothers : ∀ a ∈ actions, a ≠ .rejudge id := by
    rintro a ha rfl
    exact hrejudge ha
  exact run_invariant (fun _ a _ ha hs hstep => tracked_step hcode a ha hs hstep) hothers h hrun

/-! ### A task that no core takes -/

/-- A task that is moved and not taken is open. -/
theorem mem_openSolutions (h : Reachable config s) {t : TaskObj} (hmoved : t ∈ s.moved)
    (hnever : t ∉ s.taken) : t.solutionID ∈ s.openSolutions := by
  obtain ⟨p, -, hp⟩ := exists_pipeline h
  simp only [openSolutions, Multiset.mem_add]
  rcases List.mem_append.mp hmoved with hadded | hadds
  · rw [hp.added] at hadded
    -- added and not taken: the task still waits
    have hwaiting := (List.mem_append.mp hadded).resolve_left hnever
    exact .inl (.inl (.inl (.inr (mem_solutions hwaiting))))
  · exact .inl (.inl (.inl (.inl (mem_solutions hadds))))

/-- The result of a task that no core takes stays `JE_COMPILING`, so the query does not select
its solution. The run starts in a state `s` where the solution is not in flight, and in it the
front end does not ask to judge the solution again. -/
theorem never_taken_stays_compiling (hcode : config.selectable config.JE_COMPILING = false)
    (hs : Reachable config s) {actions : List Action}
    (hrun : run (step config) s actions = some s') {t : TaskObj}
    (hidle : t.solutionID ∉ s.inFlight) (hrejudge : .rejudge t.solutionID ∉ actions)
    (hmoved : t ∈ s'.moved) (hnever : t ∉ s'.taken) :
    s'.db.resultOf t.solutionID = some config.JE_COMPILING ∧
      t.solutionID ∉ (s'.db.selectProblem config).map SelectedRow.solutionID := by
  have htracked := tracked_run hcode hrejudge (Tracked.of_notMem hidle) hrun
  have hcompiling := htracked.compiling (mem_openSolutions (hs.trans hrun) hmoved hnever)
  refine ⟨hcompiling, ?_⟩
  intro hmem
  obtain ⟨row, hrow, hid⟩ := List.mem_map.mp hmem
  obtain ⟨hresult, hselectable⟩ := s'.db.resultOf_of_mem_selectProblem config hrow
  rw [hid, hcompiling, Option.some.injEq] at hresult
  rw [← hresult, hcode] at hselectable
  exact Bool.noConfusion hselectable

/-- `main` stops the cell and the database manager while the task waits. -/
def stopAll : List Action :=
  [.mainExit, .mainPush, .coreGet 0, .mainJoinCores, .mainDbStop, .mainDbMarker, .readerRowsEnd,
    .readerCheck, .writerCheck, .mainJoinReader, .mainJoinWriter]

/-- A run to the end of `main` in which the core takes the marker instead of the task. -/
theorem exists_orphan :
    ∃ s t, run (step {}) (start oneSubmission 1) (dispatch ++ stopAll) = some s ∧
      s.main = .stopped ∧ t ∈ s.moved ∧ t ∉ s.taken ∧ t.solutionID = 1000 ∧
        s.db.resultOf 1000 = some 2 := by
  have hend : (run (step {}) (start oneSubmission 1) (dispatch ++ stopAll)).map
      (fun s => (s.main, s.moved.map TaskObj.solutionID, s.taken, s.db.resultOf 1000)) =
        some (.stopped, [1000], [], some 2) := by decide
  obtain ⟨s, hrun, hs⟩ := Option.map_eq_some_iff.mp hend
  simp only [Prod.mk.injEq] at hs
  obtain ⟨hmain, hmoved, htaken, hresult⟩ := hs
  obtain ⟨t, ht, hid⟩ := List.mem_map.mp (hmoved ▸ List.mem_singleton_self (1000 : Int))
  exact ⟨s, t, hrun, hmain, ht, htaken ▸ List.not_mem_nil, hid, hresult⟩

/-- A run in which the only submission is left behind: the reader dispatches it, and `main` stops
everything before the core takes its task. -/
theorem never_taken_stays_compiling_one :
    ∃ s, run (step {}) (start oneSubmission 1) (dispatch ++ stopAll) = some s ∧
      s.main = .stopped ∧ 1000 ∉ (s.db.selectProblem {}).map SelectedRow.solutionID := by
  obtain ⟨s, t, hrun, hmain, hmoved, hnever, hid, -⟩ := exists_orphan
  have horphan := never_taken_stays_compiling (by decide) ⟨_, _, [], rfl⟩ hrun (t := t)
    (by rw [inFlight_start]; exact Multiset.notMem_zero _)
    (by rw [hid]; simp [dispatch, stopAll]) hmoved hnever
  exact ⟨s, hrun, hmain, hid ▸ horphan.2⟩

/-- The orphan is not selected when the program starts the next time. Its row still says
`JE_COMPILING`, which is no code of the query. -/
theorem stop_orphans_submission :
    ¬ ∀ (config : Config) (s : State), Reachable config s → s.main = .stopped →
      ∀ t ∈ s.moved, t ∉ s.taken →
        ∃ result, s.db.resultOf t.solutionID = some result ∧ config.selectable result = true := by
  intro hall
  obtain ⟨s, t, hrun, hmain, hmoved, hnever, hid, hcompiling⟩ := exists_orphan
  obtain ⟨result, hresult, hselectable⟩ := hall {} s ⟨_, _, _, hrun⟩ hmain t hmoved hnever
  rw [hid, hcompiling, Option.some.injEq] at hresult
  rw [← hresult] at hselectable
  exact absurd hselectable (by decide)

end State

end OnlineJudger
