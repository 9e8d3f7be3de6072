import OnlineJudger.Judger.Server
import Mathlib.Data.List.Perm.Subperm

/-!
# `OnlineJudger.Judger.Database`: the tables and the statements of the judge

The tables behind `Judger/DBManager.cpp` and what its SQL statements do to them. Each
statement is one atomic step. Columns that no modelled statement reads (`judgetime`, the
texts of `source_code`) are left out. A statement stands for what its template says. The two with
the user name in them are given to the server as texts, since the name is not escaped.

The keys of `solution` and `problem` are unique, and no statement of the judge changes a key.
-/

set_option autoImplicit false

namespace OnlineJudger

/-- A row of `problem`. The two counters are what the front end shows, and the judge keeps them. -/
structure ProblemRow where
  problemID : Int
  timeLimit : Int
  memoryLimit : Int
  accepted : ℕ := 0
  submit : ℕ := 0
  deriving DecidableEq, Repr

/-- The columns of `sqlSelectProblem`: those of a submission that waits, and the limits of its
problem. -/
structure SelectedRow where
  solutionID : Int
  problemID : Int
  userID : Text
  language : Int
  timeLimit : Int
  memoryLimit : Int
  result : Int
  deriving DecidableEq, Repr

/-- The database: the tables, and the server that keeps them. Rows are found by their keys, and two
of the keys are unique by the structure itself, so no statement can break that. -/
structure Database where
  server : Server := {}
  solution : List SolutionRow
  problem : List ProblemRow
  users : List UserRow
  compileinfo : List (Int × Text) := []
  solution_nodup : (solution.map SolutionRow.solutionID).Nodup
  problem_nodup : (problem.map ProblemRow.problemID).Nodup

namespace Database

/-! ### Helpers for the statements -/

/-- Change the rows of `solution` with this key. The key itself stays, so the rows keep their unique
keys. -/
def setSolution (db : Database) (solutionID : Int) (f : SolutionRow → SolutionRow)
    (hf : ∀ r, (f r).solutionID = r.solutionID) : Database where
  __ := db
  solution := db.solution.map fun r => if r.solutionID = solutionID then f r else r
  solution_nodup := by
    have hkey : (SolutionRow.solutionID ∘ fun r => if r.solutionID = solutionID then f r else r) =
        SolutionRow.solutionID := by
      funext r
      simp only [Function.comp_apply]
      split
      · exact hf r
      · rfl
    rw [List.map_map, hkey]
    exact db.solution_nodup

/-- Change the rows of `problem` with this key. The keys stay unique, as they do for
`setSolution`. -/
def setProblem (db : Database) (problemID : Int) (f : ProblemRow → ProblemRow)
    (hf : ∀ r, (f r).problemID = r.problemID) : Database where
  __ := db
  problem := db.problem.map fun r => if r.problemID = problemID then f r else r
  problem_nodup := by
    have hkey : (ProblemRow.problemID ∘ fun r => if r.problemID = problemID then f r else r) =
        ProblemRow.problemID := by
      funext r
      simp only [Function.comp_apply]
      split
      · exact hf r
      · rfl
    rw [List.map_map, hkey]
    exact db.problem_nodup

/-- The stored result of a solution. The first row with the key is the only one, and a solution that
is not in the table has no result. -/
def resultOf (db : Database) (solutionID : Int) : Option Int :=
  (db.solution.find? fun r => r.solutionID = solutionID).map SolutionRow.result

/-! ### The statements -/

/-- `sqlSelectProblem` without its limit: the solutions that wait for the judge, joined with their
problems. A solution without a problem is never selected. -/
def selectProblem (db : Database) (config : Config) : List SelectedRow :=
  db.solution.flatMap fun s =>
    if config.selectable s.result then
      (db.problem.filter fun p => s.problemID = p.problemID).map fun p =>
        { solutionID := s.solutionID, problemID := s.problemID, userID := s.userID,
          language := s.language, timeLimit := p.timeLimit, memoryLimit := p.memoryLimit,
          result := s.result }
    else []

/-- The `limit` of `sqlSelectProblem`: that many submissions are taken at once, and the others wait
for the next query. -/
def selectLimit : ℕ := 20

/-- `rows` can be the answer to `sqlSelectProblem`. The statement names no order, so any rows
up to the limit can come, in any order. -/
def IsSelection (db : Database) (config : Config) (rows : List SelectedRow) : Prop :=
  List.Subperm rows (db.selectProblem config) ∧
    rows.length = min selectLimit (db.selectProblem config).length

/-- A result set is a list of at most twenty rows. -/
instance (db : Database) (config : Config) (rows : List SelectedRow) :
    Decidable (db.IsSelection config rows) := by
  unfold IsSelection
  infer_instance

/-- `sqlUpdateSolutionCompiling`. From here on the query does not select the solution. -/
def updateSolutionCompiling (db : Database) (config : Config) (solutionID : Int) : Database :=
  db.setSolution solutionID (fun r => { r with result := config.JE_COMPILING }) fun _ => rfl

/-- `sqlUpdateSolution`: the verdict, the measures and the pass rate of a task go to its row. The
column `judgetime` is left out, since nothing reads it. -/
def updateSolution (db : Database) (task : TaskBase) : Database :=
  db.setSolution task.solutionID
    (fun r => { r with
      result := task.result, time := task.runTime, memory := task.runMemory,
      passRate := task.passRate }) fun _ => rfl

/-- `sqlUpdateUserSolved`, with the name of the task's user in it. What the text does to the table
is up to the server. -/
def updateUserSolved (db : Database) (config : Config) (task : TaskBase) : Database where
  __ := db
  users := db.server.updateUsers
    (DBManager.userSolvedCall db.server.page config task).text db.solution db.users

/-- `sqlUpdateUserSubmit`, in the same way: the statement counts the submissions of the user, and
what its text does is up to the server. -/
def updateUserSubmit (db : Database) (task : TaskBase) : Database where
  __ := db
  users := db.server.updateUsers
    (DBManager.userSubmitCall db.server.page task).text db.solution db.users

/-- `sqlUpdateProblemAccept`. The subquery counts the rows as they are at this moment. -/
def updateProblemAccept (db : Database) (config : Config) (task : TaskBase) : Database :=
  let rows := db.solution.filter fun r =>
    r.problemID = task.problemID ∧ r.result = config.JE_ACCEPT
  db.setProblem task.problemID (fun r => { r with accepted := rows.length }) fun _ => rfl

/-- `sqlUpdateProblemSubmit`. All submissions of the problem count, judged or not. -/
def updateProblemSubmit (db : Database) (task : TaskBase) : Database :=
  let rows := db.solution.filter fun r => r.problemID = task.problemID
  db.setProblem task.problemID (fun r => { r with submit := rows.length }) fun _ => rfl

/-- `sqlDeleteCompile`. Every row of the solution goes. -/
def deleteCompile (db : Database) (task : TaskBase) : Database where
  __ := db
  compileinfo := db.compileinfo.filter fun r => r.1 ≠ task.solutionID

/-- `sqlInsertCompile`. The error text is stored as the bytes that it is converted to. It is
escaped, so the server reads these bytes whatever they are. -/
def insertCompile (db : Database) (task : TaskBase) : Database where
  __ := db
  compileinfo := db.compileinfo ++
    [(task.solutionID, wcharToChar db.server.page task.compileErrorStr)]

/-! ### The front end -/

/-- A new submission, with a key that the table does not have. The row comes to the end, and no
other row changes. -/
def submit (db : Database) (row : SolutionRow)
    (h : row.solutionID ∉ db.solution.map SolutionRow.solutionID) : Database where
  __ := db
  solution := db.solution ++ [row]
  solution_nodup := by
    rw [List.map_append, List.nodup_append]
    refine ⟨db.solution_nodup, List.nodup_singleton _, ?_⟩
    rintro a ha b hb rfl
    rw [List.map_singleton, List.mem_singleton] at hb
    exact h (hb ▸ ha)

/-- A request to judge a solution again. The other columns keep their old values until the task is
written. -/
def rejudge (db : Database) (config : Config) (solutionID : Int) : Database :=
  db.setSolution solutionID (fun r => { r with result := config.JE_REJUDGE }) fun _ => rfl

/-! ### The stored result -/

/-- A result is stored if some row has it: the keys are unique, so it does not matter which row is
found. -/
theorem resultOf_eq_some_iff (db : Database) (id result : Int) :
    db.resultOf id = some result ↔ ∃ r ∈ db.solution, r.solutionID = id ∧ r.result = result := by
  unfold resultOf
  constructor
  · intro h
    obtain ⟨r, hr, rfl⟩ := Option.map_eq_some_iff.mp h
    exact ⟨r, List.mem_of_find?_eq_some hr, by simpa using List.find?_some hr, rfl⟩
  · rintro ⟨r, hr, rfl, rfl⟩
    have hsome : (db.solution.find? fun r' => r'.solutionID = r.solutionID).isSome = true := by
      rw [List.find?_isSome]
      exact ⟨r, hr, decide_eq_true rfl⟩
    obtain ⟨r', hr'⟩ := Option.isSome_iff_exists.mp hsome
    have hkey : r'.solutionID = r.solutionID := by simpa using List.find?_some hr'
    -- the key is unique, so the row that is found is `r`
    have heq := List.inj_on_of_nodup_map db.solution_nodup (List.mem_of_find?_eq_some hr') hr hkey
    rw [hr', heq]
    rfl

/-- A stored result after an update: of another row, or of the updated one. The two cases do not
overlap, since a key belongs to one row. -/
theorem of_resultOf_setSolution (db : Database) {solutionID id result : Int}
    {f : SolutionRow → SolutionRow} {hf : ∀ r, (f r).solutionID = r.solutionID}
    (h : (db.setSolution solutionID f hf).resultOf id = some result) :
    (id ≠ solutionID ∧ db.resultOf id = some result) ∨
      (id = solutionID ∧ ∃ r ∈ db.solution, r.solutionID = id ∧ (f r).result = result) := by
  rw [resultOf_eq_some_iff] at h
  obtain ⟨r', hr', hid, hresult⟩ := h
  obtain ⟨r, hr, rfl⟩ := List.mem_map.mp hr'
  split_ifs at hid hresult with hkey
  · rw [hf r] at hid
    exact .inr ⟨hid.symm.trans hkey, r, hr, hid, hresult⟩
  · exact .inl ⟨hid ▸ hkey, (resultOf_eq_some_iff ..).mpr ⟨r, hr, hid, hresult⟩⟩

/-- A statement on other rows leaves the result as it is. -/
theorem resultOf_setSolution_of_ne (db : Database) {solutionID id : Int} (h : id ≠ solutionID)
    (f : SolutionRow → SolutionRow) (hf : ∀ r, (f r).solutionID = r.solutionID) {result : Int}
    (hr : db.resultOf id = some result) :
    (db.setSolution solutionID f hf).resultOf id = some result := by
  rw [resultOf_eq_some_iff] at hr ⊢
  obtain ⟨r, hr, rfl, rfl⟩ := hr
  exact ⟨r, List.mem_map.mpr ⟨r, hr, if_neg h⟩, rfl, rfl⟩

/-- A stored result behind `sqlUpdateSolutionCompiling`: an old one, or compiling. -/
theorem of_resultOf_updateSolutionCompiling (db : Database) (config : Config)
    {solutionID id result : Int}
    (h : (db.updateSolutionCompiling config solutionID).resultOf id = some result) :
    (id ≠ solutionID ∧ db.resultOf id = some result) ∨
      (id = solutionID ∧ result = config.JE_COMPILING) := by
  rcases db.of_resultOf_setSolution h with hother | ⟨hid, r, -, -, rfl⟩
  · exact .inl hother
  · exact .inr ⟨hid, rfl⟩

/-- A stored result behind `sqlUpdateSolution`: an old one, or the verdict of the task. -/
theorem of_resultOf_updateSolution (db : Database) {task : TaskBase} {id result : Int}
    (h : (db.updateSolution task).resultOf id = some result) :
    (id ≠ task.solutionID ∧ db.resultOf id = some result) ∨
      (id = task.solutionID ∧ result = task.result) := by
  rcases db.of_resultOf_setSolution h with hother | ⟨hid, r, -, -, rfl⟩
  · exact .inl hother
  · exact .inr ⟨hid, rfl⟩

/-- A stored result behind a rejudge request: an old one, or rejudge. -/
theorem of_resultOf_rejudge (db : Database) (config : Config) {solutionID id result : Int}
    (h : (db.rejudge config solutionID).resultOf id = some result) :
    (id ≠ solutionID ∧ db.resultOf id = some result) ∨
      (id = solutionID ∧ result = config.JE_REJUDGE) := by
  rcases db.of_resultOf_setSolution h with hother | ⟨hid, r, -, -, rfl⟩
  · exact .inl hother
  · exact .inr ⟨hid, rfl⟩

/-- A stored result behind a new submission: an old one, or the one of the new row. -/
theorem of_resultOf_submit (db : Database) {row : SolutionRow}
    (h : row.solutionID ∉ db.solution.map SolutionRow.solutionID) {id result : Int}
    (hr : (db.submit row h).resultOf id = some result) :
    db.resultOf id = some result ∨ (id = row.solutionID ∧ result = row.result) := by
  rw [resultOf_eq_some_iff] at hr ⊢
  obtain ⟨r, hr, rfl, rfl⟩ := hr
  rcases List.mem_append.mp hr with hr | hr
  · exact .inl ⟨r, hr, rfl, rfl⟩
  · rw [List.mem_singleton.mp hr]
    exact .inr ⟨rfl, rfl⟩

/-- A statement that sets the result of a row, if there is one. Without such a row the statement
does nothing. -/
theorem resultOf_setSolution_self (db : Database) {id old result : Int}
    (hr : db.resultOf id = some old) (f : SolutionRow → SolutionRow)
    (hf : ∀ r, (f r).solutionID = r.solutionID) (hresult : ∀ r, (f r).result = result) :
    (db.setSolution id f hf).resultOf id = some result := by
  rw [resultOf_eq_some_iff] at hr ⊢
  obtain ⟨r, hr, rfl, -⟩ := hr
  exact ⟨f r, List.mem_map.mpr ⟨r, hr, if_pos rfl⟩, hf r, hresult r⟩

/-- The solution is compiling. -/
theorem resultOf_updateSolutionCompiling_self (db : Database) (config : Config) {id old : Int}
    (hr : db.resultOf id = some old) :
    (db.updateSolutionCompiling config id).resultOf id = some config.JE_COMPILING :=
  db.resultOf_setSolution_self hr _ _ fun _ => rfl

/-- Another solution keeps its result. -/
theorem resultOf_updateSolutionCompiling_of_ne (db : Database) (config : Config)
    {solutionID id result : Int} (h : id ≠ solutionID) (hr : db.resultOf id = some result) :
    (db.updateSolutionCompiling config solutionID).resultOf id = some result :=
  db.resultOf_setSolution_of_ne h _ _ hr

/-- The solution has the verdict of the task. -/
theorem resultOf_updateSolution_self (db : Database) {task : TaskBase} {old : Int}
    (hr : db.resultOf task.solutionID = some old) :
    (db.updateSolution task).resultOf task.solutionID = some task.result :=
  db.resultOf_setSolution_self hr _ _ fun _ => rfl

/-- Another solution keeps its result. -/
theorem resultOf_updateSolution_of_ne (db : Database) {task : TaskBase} {id result : Int}
    (h : id ≠ task.solutionID) (hr : db.resultOf id = some result) :
    (db.updateSolution task).resultOf id = some result :=
  db.resultOf_setSolution_of_ne h _ _ hr

/-- Another solution keeps its result. -/
theorem resultOf_rejudge_of_ne (db : Database) (config : Config) {solutionID id result : Int}
    (h : id ≠ solutionID) (hr : db.resultOf id = some result) :
    (db.rejudge config solutionID).resultOf id = some result :=
  db.resultOf_setSolution_of_ne h _ _ hr

/-- A new submission takes no result away. -/
theorem resultOf_submit (db : Database) {row : SolutionRow}
    (h : row.solutionID ∉ db.solution.map SolutionRow.solutionID) {id result : Int}
    (hr : db.resultOf id = some result) : (db.submit row h).resultOf id = some result := by
  rw [resultOf_eq_some_iff] at hr ⊢
  obtain ⟨r, hr, hkey⟩ := hr
  exact ⟨r, List.mem_append_left _ hr, hkey⟩

/-- A selected row is stored with a result that waits for the judge. -/
theorem resultOf_of_mem_selectProblem (db : Database) (config : Config) {row : SelectedRow}
    (h : row ∈ db.selectProblem config) :
    db.resultOf row.solutionID = some row.result ∧ config.selectable row.result = true := by
  obtain ⟨s, hs, h⟩ := List.mem_flatMap.mp h
  split_ifs at h with hsel
  · obtain ⟨p, -, rfl⟩ := List.mem_map.mp h
    exact ⟨(resultOf_eq_some_iff ..).mpr ⟨s, hs, rfl, rfl⟩, hsel⟩
  · simp only [List.not_mem_nil] at h

/-- The problems of one solution: at most one, since the keys of `problem` are unique. So a join
with `problem` never doubles a row. -/
theorem problem_filter_sublist (db : Database) (problemID : Int) {β : Type} (b : β) :
    ((db.problem.filter fun p => problemID = p.problemID).map fun _ => b).Sublist [b] := by
  have hnodup : ((db.problem.filter fun p => problemID = p.problemID).map
      ProblemRow.problemID).Nodup := db.problem_nodup.sublist (List.filter_sublist.map _)
  have hkey : ∀ p ∈ db.problem.filter fun p => problemID = p.problemID,
      p.problemID = problemID := by
    intro p hp
    have := (List.mem_filter.mp hp).2
    simpa using (of_decide_eq_true this).symm
  cases hl : db.problem.filter fun p => problemID = p.problemID with
  | nil => exact List.nil_sublist _
  | cons p ps =>
    cases ps with
    | nil => exact List.Sublist.refl _
    | cons q ps =>
      rw [hl] at hnodup hkey
      -- two of them would have the same key
      have hp := hkey p (List.mem_cons_self ..)
      have hq := hkey q (List.mem_cons_of_mem _ (List.mem_cons_self ..))
      rw [List.map_cons, List.map_cons, List.nodup_cons, hp, hq] at hnodup
      exact absurd (List.mem_cons_self ..) hnodup.1

/-- Each solution is selected at most once. It joins with one problem. -/
theorem selectProblem_nodup (db : Database) (config : Config) :
    ((db.selectProblem config).map SelectedRow.solutionID).Nodup := by
  refine db.solution_nodup.sublist ?_
  rw [selectProblem, List.map_flatMap]
  -- on the rows of `solution`: each one is selected not at all or once
  induction db.solution with
  | nil => exact List.Sublist.refl _
  | cons s rows ih =>
    rw [List.flatMap_cons, List.map_cons, ← List.singleton_append]
    refine List.Sublist.append ?_ ih
    split_ifs
    · rw [List.map_map]
      exact db.problem_filter_sublist s.problemID s.solutionID
    · exact List.nil_sublist _

end Database

end OnlineJudger
