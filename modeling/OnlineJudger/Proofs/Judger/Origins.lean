import OnlineJudger.Proofs.Judger.Orphans
import OnlineJudger.Proofs.Judger.Verdicts

/-!
# `OnlineJudger.Proofs.Judger.Origins`: where the tasks and the stored results come from

`carried` are the tasks from `doRead` up to the end of `judge`, and `carried_step` says what a
step does to them: one task joins when the reader has stored `JE_COMPILING`, and one leaves when
a core has cleaned up. `db_step` says in the same way what a step does to the database.

`Origins` holds in every reachable state: each selected row and each task belongs to a row of
`solution`, and the result of each reported task is a verdict. The name of a task is the converted
name of its row (`wideIdentity`).
-/

set_option autoImplicit false

namespace OnlineJudger

open Lib

/-! ### The identity of a row -/

/-- The solution, the problem and the user. -/
def SolutionRow.identity (r : SolutionRow) : Int × Int × Text :=
  (r.solutionID, r.problemID, r.userID)

/-- The same for a row that was selected. -/
def SelectedRow.identity (r : SelectedRow) : Int × Int × Text :=
  (r.solutionID, r.problemID, r.userID)

/-- The identity of a task of a row with this identity. The name is a wide text there, and
converting it back may give another name. -/
def wideIdentity (page : CodePage) (i : Int × Int × Text) : Int × Int × Text :=
  (i.1, i.2.1, charToWChar page i.2.2)

namespace Database

/-- The identities of the rows of `solution`. -/
def identities (db : Database) : List (Int × Int × Text) := db.solution.map SolutionRow.identity

/-- The identities that the tasks of these rows have. -/
def taskIdentities (db : Database) : List (Int × Int × Text) :=
  db.identities.map (wideIdentity db.server.page)

/-- No update changes the identity of a row. -/
theorem identities_setSolution (db : Database) (id : Int) (f : SolutionRow → SolutionRow)
    (hf : ∀ r, (f r).solutionID = r.solutionID) (hidentity : ∀ r, (f r).identity = r.identity) :
    (db.setSolution id f hf).identities = db.identities := by
  show (db.solution.map _).map _ = _
  rw [List.map_map]
  refine List.map_congr_left ?_
  intro r _
  rw [Function.comp_apply]
  split
  · exact hidentity r
  · rfl

/-- Setting `JE_COMPILING` changes the result only. -/
theorem identities_updateSolutionCompiling (db : Database) (config : Config) (id : Int) :
    (db.updateSolutionCompiling config id).identities = db.identities := by
  unfold updateSolutionCompiling
  exact db.identities_setSolution _ _ _ fun _ => rfl

/-- A verdict changes the result and the measurements. -/
theorem identities_updateSolution (db : Database) (task : TaskBase) :
    (db.updateSolution task).identities = db.identities := by
  unfold updateSolution
  exact db.identities_setSolution _ _ _ fun _ => rfl

/-- A rejudge changes the result. -/
theorem identities_rejudge (db : Database) (config : Config) (id : Int) :
    (db.rejudge config id).identities = db.identities := by
  unfold rejudge
  exact db.identities_setSolution _ _ _ fun _ => rfl

/-- A selected row is one of `solution`. -/
theorem identity_mem_of_mem_selectProblem (db : Database) (config : Config) {row : SelectedRow}
    (h : row ∈ db.selectProblem config) : row.identity ∈ db.identities := by
  obtain ⟨s, hs, h⟩ := List.mem_flatMap.mp h
  split_ifs at h with hsel
  · obtain ⟨p, -, rfl⟩ := List.mem_map.mp h
    exact List.mem_map.mpr ⟨s, hs, rfl⟩
  · simp only [List.not_mem_nil] at h

/-- A row with this identity is stored under its solution id. -/
theorem exists_resultOf (db : Database) {i : Int × Int × Text} (h : i ∈ db.identities) :
    ∃ result, db.resultOf i.1 = some result := by
  obtain ⟨r, hr, rfl⟩ := List.mem_map.mp h
  exact ⟨r.result, (resultOf_eq_some_iff ..).mpr ⟨r, hr, rfl, rfl⟩⟩

/-- The row of a task is stored under the solution id of the task. -/
theorem exists_resultOf_task (db : Database) {task : TaskBase}
    (h : task.identity ∈ db.taskIdentities) :
    ∃ result, db.resultOf task.solutionID = some result := by
  obtain ⟨i, hi, heq⟩ := List.mem_map.mp h
  have hid : i.1 = task.solutionID := congrArg Prod.fst heq
  rw [← hid]
  exact db.exists_resultOf hi

end Database

/-- The rows that the reader has not looked at. -/
def ReaderPc.rowsLeft : ReaderPc → List SelectedRow
  | .rows l => l
  | .adding _ l => l
  | _ => []

/-- The ids that the reader has still to look at are those of its rows. -/
theorem ReaderPc.selected_eq (pc : ReaderPc) :
    pc.selected = (pc.rowsLeft.map SelectedRow.solutionID : List Int) := by
  cases pc <;> rfl

/-- The task in `judge`, up to its end. -/
def CorePc.task : CorePc → Option TaskObj
  | .judging task => some task
  | .cleaning task _ => some task
  | _ => none

namespace State

/-- A new task has the identity of its row, and the name is converted. -/
theorem newTask_identity (config : Config) (s : State) (testData : List Text)
    (row : SelectedRow) :
    (s.newTask config testData row).task.identity = wideIdentity s.db.server.page row.identity :=
  TaskBase.initializeData_identity _ config testData

variable {config : Config} {s s' : State}

/-! ### The tasks up to the end of `judge` -/

/-- The tasks that the reader holds, that wait in `m_tasks`, or that a core holds. A core carries
its task to the end of `judge`, and not only up to the report. -/
def carried (s : State) : Multiset TaskObj :=
  s.reader.adds.toList + realTasks s.tasks + (s.cores.filterMap CorePc.task : List TaskObj)

/-- The reader moves and holds no task. -/
theorem carried_reader {pc : ReaderPc} (hadds : s.reader.adds = none) (hadds' : pc.adds = none)
    (addr : ℕ) : ({ s with nextAddr := addr, reader := pc } : State).carried = s.carried := by
  simp only [carried, hadds, hadds']

/-- A core changes, and with it the waiting tasks. -/
theorem carried_core {i : ℕ} {c c' : CorePc} (hc : s.cores[i]? = some c)
    {tasks : TaskMgr (Option TaskObj)}
    (htasks : (realTasks s.tasks : Multiset TaskObj) + c.task.toList =
      (realTasks tasks : Multiset TaskObj) + c'.task.toList) :
    ({ s with cores := s.cores.set i c', tasks } : State).carried = s.carried := by
  have hset := coe_filterMap_set CorePc.task hc c'
  refine add_right_cancel (b := (c.task.toList : Multiset TaskObj)) ?_
  calc ({ s with cores := s.cores.set i c', tasks } : State).carried + c.task.toList
      = s.reader.adds.toList + realTasks tasks +
          (((s.cores.set i c').filterMap CorePc.task : List TaskObj) + c.task.toList) :=
        add_assoc _ _ _
    _ = s.reader.adds.toList + (realTasks tasks + c'.task.toList) +
          (s.cores.filterMap CorePc.task : List TaskObj) := by
        rw [hset]
        abel
    _ = s.carried + c.task.toList := by
        rw [← htasks, carried]
        abel

/-- What a step does to the carried tasks. Only the reader brings a new one, from a row whose
result it has set. -/
theorem carried_step (a : Action) (hstep : step config s a = some s') :
    s'.carried ≤ s.carried ∨
      ∃ testData row rows, s.reader = .rows (row :: rows) ∧
        s'.carried = {s.newTask config testData row} + s.carried ∧
        s'.reader = .adding (s.newTask config testData row) rows ∧
        s'.db = s.db.updateSolutionCompiling config row.solutionID := by
  cases ha : a.party with
  | frontEnd =>
    obtain ⟨db, rfl⟩ := frontEnd_frame ha hstep
    exact .inl le_rfl
  | reader =>
    cases a with
    | readerCheck =>
      obtain ⟨hpc, rfl⟩ := of_readerCheck hstep
      refine .inl (carried_reader (by rw [hpc]; rfl) ?_ s.nextAddr).le
      cases s.running <;> rfl
    | readerSelect answer =>
      obtain ⟨hpc, rfl | rfl | ⟨rows, -, -, rfl⟩⟩ := of_readerSelect hstep <;>
        exact .inl (carried_reader (by rw [hpc]; rfl) rfl s.nextAddr).le
    | readerRow testData ok =>
      obtain ⟨row, rows, hpc, ⟨-, hs'⟩ | ⟨-, rfl⟩⟩ := of_readerRow hstep
      · refine .inr ⟨testData, row, rows, hpc, ?_, by rw [hs'], ?_⟩
        · simp only [hs', carried, hpc, ReaderPc.adds, Option.toList_some, Option.toList_none,
            Multiset.coe_singleton, Multiset.coe_nil, zero_add, add_assoc]
        · rw [hs']
          exact congrArg (s.db.updateSolutionCompiling config) (newTask_solutionID testData row)
      · exact .inl (carried_reader (by rw [hpc]; rfl) rfl _).le
    | readerAdd =>
      obtain ⟨t, rows, hpc, rfl⟩ := of_readerAdd hstep
      refine .inl (le_of_eq ?_)
      simp only [carried, hpc, realTasks_add, ReaderPc.adds, Option.toList_none,
        Option.toList_some, Multiset.coe_nil, zero_add, Multiset.coe_singleton, ← Multiset.coe_add]
      rw [add_comm (realTasks s.tasks : Multiset TaskObj)]
    | readerRowsEnd =>
      obtain ⟨hpc, rfl⟩ := of_readerRowsEnd hstep
      exact .inl (carried_reader (by rw [hpc]; rfl) rfl s.nextAddr).le
    | _ => cases ha
  | core =>
    cases a with
    | coreGet i =>
      obtain ⟨hpc, task?, tasks, hget, hs'⟩ := of_coreGet hstep
      cases task? with
      | none =>
        subst hs'
        refine .inl (carried_core hpc ?_).le
        rw [realTasks_get_none hget]
        rfl
      | some t =>
        subst hs'
        refine .inl (carried_core (s := s) hpc ?_).le
        rw [realTasks_get_some hget]
        show ((t :: realTasks tasks : List TaskObj) : Multiset TaskObj) + 0 = _ + {t}
        rw [add_zero, add_comm, Multiset.singleton_add, Multiset.cons_coe]
    | coreFinish i env =>
      obtain ⟨t, hpc, rfl⟩ := of_coreFinish hstep
      refine .inl (carried_core (s := s) hpc ?_).le
      rfl
    | coreCleanUp i =>
      obtain ⟨t, ok, hpc, rfl⟩ := of_coreCleanUp hstep
      -- the only step in which a task leaves
      have hset := coe_filterMap_set CorePc.task hpc (if ok then .getting else .exited)
      refine .inl ?_
      rw [carried, carried]
      refine add_le_add_right ?_ _
      have hnone : (if ok then CorePc.getting else .exited).task = none := by cases ok <;> rfl
      rw [hnone, Option.toList_none, Multiset.coe_nil, add_zero] at hset
      rw [← hset]
      exact Multiset.le_add_right _ _
    | _ => cases ha
  | writer =>
    obtain ⟨writer, finishTask, db, written, rfl⟩ := writer_frame ha hstep
    exact .inl le_rfl
  | main =>
    obtain ⟨main, running, tasks, finishTask, rfl, htasks, hfinish⟩ := main_frame ha hstep
    refine .inl (le_of_eq ?_)
    simp only [carried, htasks]

/-! ### What a step does to the database -/

/-- What a step does to the database, and where the step comes from. It is the case analysis for
every invariant about the tables: most steps leave them alone. -/
inductive DbStep (config : Config) (s s' : State) : Action → Prop where
  | same {a : Action} (hdb : s'.db = s.db) (hwritten : s'.written = s.written)
      (hwriter : ∀ t statements,
        s'.writer = .writing t statements ↔ s.writer = .writing t statements) :
      DbStep config s s' a
  | submit {row : SolutionRow} (hnew : row.solutionID ∉ s.db.solution.map SolutionRow.solutionID)
      (hresult : row.result = config.JE_PENDING)
      (hs' : s' = { s with db := s.db.submit row hnew }) : DbStep config s s' (.submit row)
  | rejudge {id : Int} (hs' : s' = { s with db := s.db.rejudge config id }) :
      DbStep config s s' (.rejudge id)
  | compiling {testData : List Text} {row : SelectedRow} {rows : List SelectedRow}
      (hpc : s.reader = .rows (row :: rows))
      (hdb : s'.db = s.db.updateSolutionCompiling config row.solutionID)
      (hwritten : s'.written = s.written) (hwriter : s'.writer = s.writer) :
      DbStep config s s' (.readerRow testData true)
  | update {t : TaskObj} {ok : Bool} (hpc : s.writer = .holding t)
      (hs' : s' = { s with
        db := if ok then s.db.updateSolution t.task else s.db
        writer := .writing t (WriteStatement.ofTask config t.task)
        written := s.written ++ [t] }) : DbStep config s s' (.writerUpdate ok)
  | query {t : TaskObj} {statement : WriteStatement} {statements : List WriteStatement}
      {ok : Bool} (hpc : s.writer = .writing t (statement :: statements))
      (hs' : s' = { s with
        db := if ok then statement.exec config t.task s.db else s.db
        writer := if statements = [] then .check else .writing t statements }) :
      DbStep config s s' (.writerQuery ok)

/-- The step lemma for the database: one case for each action that reaches it, with the place the
action comes from. -/
theorem db_step (a : Action) (hstep : step config s a = some s') : DbStep config s s' a := by
  cases ha : a.party with
  | frontEnd =>
    cases a with
    | submit row =>
      obtain ⟨hnew, hresult, hs'⟩ := of_submit hstep
      exact .submit hnew hresult hs'
    | rejudge id => exact .rejudge (of_rejudge hstep)
    | _ => cases ha
  | reader =>
    cases a with
    | readerCheck =>
      obtain ⟨-, rfl⟩ := of_readerCheck hstep
      exact .same rfl rfl fun _ _ => Iff.rfl
    | readerSelect answer =>
      obtain ⟨-, rfl | rfl | ⟨rows, -, -, rfl⟩⟩ := of_readerSelect hstep <;>
        exact .same rfl rfl fun _ _ => Iff.rfl
    -- `JE_COMPILING` is written for the row, or the update fails
    | readerRow testData ok =>
      obtain ⟨row, rows, hpc, ⟨rfl, rfl⟩ | ⟨-, rfl⟩⟩ := of_readerRow hstep
      · refine .compiling hpc ?_ rfl rfl
        exact congrArg (s.db.updateSolutionCompiling config) (newTask_solutionID testData row)
      · exact .same rfl rfl fun _ _ => Iff.rfl
    | readerAdd =>
      obtain ⟨t, rows, -, rfl⟩ := of_readerAdd hstep
      exact .same rfl rfl fun _ _ => Iff.rfl
    | readerRowsEnd =>
      obtain ⟨-, rfl⟩ := of_readerRowsEnd hstep
      exact .same rfl rfl fun _ _ => Iff.rfl
    | _ => cases ha
  | core =>
    obtain ⟨i, c, c', tasks, taken, finishTask, reported, hc, hne, rfl⟩ := core_frame ha hstep
    exact .same rfl rfl fun _ _ => Iff.rfl
  | writer =>
    cases a with
    | writerCheck =>
      obtain ⟨hpc, rfl⟩ := of_writerCheck hstep
      refine .same rfl rfl ?_
      intro t statements
      rw [hpc]
      cases s.running <;> simp only [Bool.false_eq_true, if_true, if_false, reduceCtorEq]
    | writerGet =>
      obtain ⟨hpc, task?, finishTask, -, hs'⟩ := of_writerGet hstep
      cases task? <;> subst hs' <;> refine .same rfl rfl ?_ <;> intro t statements <;>
        simp only [hpc, reduceCtorEq]
    | writerUpdate ok =>
      obtain ⟨t, hpc, hs'⟩ := of_writerUpdate hstep
      exact .update hpc hs'
    | writerQuery ok =>
      obtain ⟨t, statement, statements, hpc, hs'⟩ := of_writerQuery hstep
      exact .query hpc hs'
    | _ => cases ha
  | main =>
    obtain ⟨main, running, tasks, finishTask, rfl, htasks, hfinish⟩ := main_frame ha hstep
    exact .same rfl rfl fun _ _ => Iff.rfl

/-- The identities of the rows. Only a submission adds one, and none is lost: every other statement
changes the result of a row, or no row. -/
theorem identities_step (a : Action) (hstep : step config s a = some s') :
    s'.db.identities = s.db.identities ∨
      ∃ row, a = .submit row ∧ s'.db.identities = s.db.identities ++ [row.identity] := by
  -- only `submit` adds an identity
  cases db_step a hstep with
  | same hdb => exact .inl (congrArg Database.identities hdb)
  | @submit row _ _ hs' =>
    refine .inr ⟨row, rfl, ?_⟩
    rw [hs']
    exact List.map_append
  | rejudge hs' =>
    rw [hs']
    exact .inl (s.db.identities_rejudge config _)
  | compiling _ hdb =>
    rw [hdb]
    exact .inl (s.db.identities_updateSolutionCompiling config _)
  | @update t ok _ hs' =>
    rw [hs']
    -- a failed statement changes nothing
    cases ok with
    | true => exact .inl (s.db.identities_updateSolution t.task)
    | false => exact .inl rfl
  | @query t statement statements ok _ hs' =>
    rw [hs']
    cases ok with
    | true => exact .inl (congrArg (List.map _) (exec_solution t.task s.db statement))
    | false => exact .inl rfl

/-- No step loses a row. -/
theorem identities_subset (a : Action) (hstep : step config s a = some s') :
    s.db.identities ⊆ s'.db.identities := by
  rcases identities_step a hstep with heq | ⟨row, -, heq⟩
  · rw [heq]
    exact List.Subset.refl _
  · rw [heq]
    exact List.subset_append_left _ _

/-- No step changes the server. The statements change the tables, and the server with its code page
is what reads them. -/
theorem server_step (a : Action) (hstep : step config s a = some s') :
    s'.db.server = s.db.server := by
  -- no step changes the server
  cases db_step a hstep with
  | same hdb => rw [hdb]
  | submit _ _ hs' =>
    rw [hs']
    rfl
  | rejudge hs' =>
    rw [hs']
    rfl
  | compiling _ hdb =>
    rw [hdb]
    rfl
  | @update _ ok _ hs' =>
    rw [hs']
    cases ok <;> rfl
  | @query t statement _ ok _ hs' =>
    rw [hs']
    cases ok with
    | true => exact exec_server t.task s.db statement
    | false => rfl

/-- Nor does a step lose the identity that a task of the row has. -/
theorem taskIdentities_subset (a : Action) (hstep : step config s a = some s') :
    s.db.taskIdentities ⊆ s'.db.taskIdentities := by
  unfold Database.taskIdentities
  rw [server_step a hstep]
  exact List.map_subset _ (identities_subset a hstep)

/-! ### Where the tasks come from -/

/-- Each selected row and each task belongs to a row of `solution`, and the result of a reported
task is a verdict. No row is ever deleted, so this stays true. -/
structure Origins (config : Config) (s : State) : Prop where
  rows : ∀ row ∈ s.reader.rowsLeft, row.identity ∈ s.db.identities
  carried : ∀ t ∈ s.carried, t.task.identity ∈ s.db.taskIdentities
  reported : ∀ t ∈ s.reported,
    t.task.identity ∈ s.db.taskIdentities ∧ t.task.result ∈ config.verdicts

/-- What a step does to the rows that the reader has not looked at. A new SELECT brings a new list,
and from then on rows only leave it. -/
theorem rowsLeft_step (a : Action) (hstep : step config s a = some s') :
    s'.reader.rowsLeft.Sublist s.reader.rowsLeft ∨
      ∃ rows, a = .readerSelect (.rows rows) ∧ s'.reader = .rows rows ∧
        s.db.IsSelection config rows := by
  cases ha : a.party with
  | frontEnd =>
    obtain ⟨db, rfl⟩ := frontEnd_frame ha hstep
    exact .inl (List.Sublist.refl _)
  -- only the reader changes its rows
  | reader =>
    cases a with
    | readerCheck =>
      obtain ⟨-, rfl⟩ := of_readerCheck hstep
      refine .inl ?_
      cases s.running <;> exact List.nil_sublist _
    | readerSelect answer =>
      -- a failed query and an empty one leave no rows
      obtain ⟨-, rfl | rfl | ⟨rows, rfl, hrows, rfl⟩⟩ := of_readerSelect hstep
      · exact .inl (List.nil_sublist _)
      · exact .inl (List.nil_sublist _)
      · exact .inr ⟨rows, rfl, rfl, hrows⟩
    -- the row in front turns into a task, or all of them are dropped
    | readerRow testData ok =>
      obtain ⟨row, rows, hpc, ⟨-, rfl⟩ | ⟨-, rfl⟩⟩ := of_readerRow hstep
      · rw [hpc]
        exact .inl (List.sublist_cons_self _ _)
      · exact .inl (List.nil_sublist _)
    | readerAdd =>
      obtain ⟨t, rows, hpc, rfl⟩ := of_readerAdd hstep
      rw [hpc]
      exact .inl (List.Sublist.refl _)
    | readerRowsEnd =>
      obtain ⟨-, rfl⟩ := of_readerRowsEnd hstep
      exact .inl (List.nil_sublist _)
    | _ => cases ha
  | core =>
    obtain ⟨i, c, c', tasks, taken, finishTask, reported, hc, hne, rfl⟩ := core_frame ha hstep
    exact .inl (List.Sublist.refl _)
  | writer =>
    obtain ⟨writer, finishTask, db, written, rfl⟩ := writer_frame ha hstep
    exact .inl (List.Sublist.refl _)
  | main =>
    obtain ⟨main, running, tasks, finishTask, rfl, htasks, hfinish⟩ := main_frame ha hstep
    exact .inl (List.Sublist.refl _)

/-- What a step does to the reported tasks. Only the end of `judge` on a core adds one, with what
the run has made of the core's task. -/
theorem reported_step (a : Action) (hstep : step config s a = some s') :
    s'.reported = s.reported ∨ ∃ (i : ℕ) (env : JudgeEnv) (t : TaskObj),
      s.cores[i]? = some (.judging t) ∧
      s'.reported = s.reported ++ [judged config env t] := by
  cases ha : a.party with
  | frontEnd =>
    obtain ⟨db, rfl⟩ := frontEnd_frame ha hstep
    exact .inl rfl
  | reader =>
    obtain ⟨reader, nextAddr, db, tasks, added, rfl⟩ := reader_frame ha hstep
    exact .inl rfl
  | core =>
    cases a with
    | coreGet i =>
      obtain ⟨-, task?, tasks, -, hs'⟩ := of_coreGet hstep
      cases task? <;> subst hs' <;> exact .inl rfl
    -- the judge run ends, and its task is reported
    | coreFinish i env =>
      obtain ⟨t, hpc, rfl⟩ := of_coreFinish hstep
      exact .inr ⟨i, env, t, hpc, rfl⟩
    | coreCleanUp i =>
      obtain ⟨t, ok, -, rfl⟩ := of_coreCleanUp hstep
      exact .inl rfl
    | _ => cases ha
  | writer =>
    obtain ⟨writer, finishTask, db, written, rfl⟩ := writer_frame ha hstep
    exact .inl rfl
  | main =>
    obtain ⟨main, running, tasks, finishTask, rfl, htasks, hfinish⟩ := main_frame ha hstep
    exact .inl rfl

/-- The task that a core holds is carried. -/
theorem mem_carried_of_core {i : ℕ} {c : CorePc} {t : TaskObj} (hc : s.cores[i]? = some c)
    (ht : c.task = some t) : t ∈ s.carried := by
  refine Multiset.mem_add.mpr (.inr (Multiset.mem_coe.mpr ?_))
  exact List.mem_filterMap.mpr ⟨c, List.mem_of_getElem? hc, ht⟩

/-- Each step keeps the origins. A new task comes from a selected row, and a reported one was
carried. -/
theorem origins_step (a : Action) (h : Origins config s) (hstep : step config s a = some s') :
    Origins config s' := by
  have hrowIds := identities_subset a hstep
  have hids := taskIdentities_subset a hstep
  refine ⟨?_, ?_, ?_⟩
  · rcases rowsLeft_step a hstep with hsub | ⟨rows, -, hpc, hrows⟩
    · exact fun row hrow => hrowIds (h.rows row (hsub.subset hrow))
    · intro row hrow
      rw [hpc] at hrow
      refine hrowIds ?_
      exact s.db.identity_mem_of_mem_selectProblem config (hrows.1.subset hrow)
  · intro t ht
    rcases carried_step a hstep with hle | ⟨testData, row, rows, hpc, hcarried, -, -⟩
    · exact hids (h.carried t (Multiset.mem_of_le hle ht))
    · rw [hcarried, Multiset.mem_add, Multiset.mem_singleton] at ht
      rcases ht with rfl | ht
      · -- the new task is made of a selected row
        rw [newTask_identity]
        have hrow := h.rows row (by rw [hpc]; exact List.mem_cons_self ..)
        exact hids (List.mem_map_of_mem hrow)
      · exact hids (h.carried t ht)
  · intro t ht
    rcases reported_step a hstep with heq | ⟨i, env, u, hpc, heq⟩
    · obtain ⟨hidentity, hresult⟩ := h.reported t (heq ▸ ht)
      exact ⟨hids hidentity, hresult⟩
    · rcases List.mem_append.mp (heq ▸ ht) with ht | ht
      · obtain ⟨hidentity, hresult⟩ := h.reported t ht
        exact ⟨hids hidentity, hresult⟩
      · -- the judge run keeps the identity and sets a verdict
        rw [List.mem_singleton.mp ht]
        refine ⟨hids ?_, JudgeCore.doJudge_mem_verdicts config env u.task⟩
        rw [judged, JudgeCore.doJudge_identity]
        exact h.carried u (mem_carried_of_core hpc rfl)

/-- At the start there is no task. -/
theorem carried_start (db : Database) (cores : ℕ) : (start db cores).carried = 0 := by
  have hcores : (List.replicate cores CorePc.getting).filterMap CorePc.task = [] :=
    List.filterMap_replicate_of_none rfl
  simp only [State.carried, start, hcores]
  rfl

/-- So there is nothing whose origin would have to be known. -/
theorem origins_start (db : Database) (cores : ℕ) : Origins config (start db cores) := by
  refine ⟨fun _ hrow => absurd hrow List.not_mem_nil, ?_,
    fun _ ht => absurd ht List.not_mem_nil⟩
  intro t ht
  rw [carried_start] at ht
  exact absurd ht (Multiset.notMem_zero t)

/-- The origins in every reachable state. By induction on the run, with `origins_step`. -/
theorem origins_of_reachable (h : Reachable config s) : Origins config s := by
  obtain ⟨db, cores, actions, hrun⟩ := h
  exact run_invariant (fun _ a _ (_ : True) hs hstep => origins_step a hs hstep)
    (fun _ _ => trivial) (origins_start db cores) hrun

/-- The writer holds a reported task. -/
theorem held_mem_reported (h : Reachable config s) {t : TaskObj} (hpc : s.writer = .holding t) :
    t ∈ s.reported := by
  obtain ⟨p, -, hp⟩ := exists_pipeline h
  rw [hp.reported_eq, hpc]
  exact List.mem_append_left _ (List.mem_append_right _ (List.mem_singleton_self t))

/-- The task that is being written has a row. It was reported, so it was selected before, and no row
leaves the table. -/
theorem writing_identity (h : Reachable config s) {t : TaskObj}
    {statements : List WriteStatement} (hpc : s.writer = .writing t statements) :
    t.task.identity ∈ s.db.taskIdentities := by
  obtain ⟨db, cores, actions, hrun⟩ := h
  let Inv : State → Prop := fun s => Reachable config s ∧
    ∀ t statements, s.writer = .writing t statements → t.task.identity ∈ s.db.taskIdentities
  have hstep : ∀ s a s', True → Inv s → step config s a = some s' → Inv s' := by
    rintro s a s' - ⟨hs, h⟩ hstep
    refine ⟨hs.step hstep, ?_⟩
    intro t statements hpc
    refine taskIdentities_subset a hstep ?_
    -- only `writerUpdate` turns the task held into the one written
    cases db_step a hstep with
    | same _ _ hwriter => exact h t statements ((hwriter t statements).mp hpc)
    | submit _ _ hs' => exact h t statements (by rw [hs'] at hpc; exact hpc)
    | rejudge hs' => exact h t statements (by rw [hs'] at hpc; exact hpc)
    | compiling _ _ _ hwriter => exact h t statements (by rw [← hwriter]; exact hpc)
    -- the task held has been reported, so its identity is known
    | update hheld hs' =>
      rw [hs'] at hpc
      cases hpc
      exact ((origins_of_reachable hs).reported t (held_mem_reported hs hheld)).1
    | query hwriting hs' =>
      rw [hs'] at hpc
      dsimp only at hpc
      split at hpc
      -- the last statement is done, or there are more of the same task
      · cases hpc
      · cases hpc
        exact h _ _ hwriting
  refine (run_invariant hstep (fun _ _ => trivial) ⟨⟨db, cores, [], rfl⟩, ?_⟩ hrun).2 t statements
    hpc
  intro t statements hpc
  cases hpc

end State

end OnlineJudger
