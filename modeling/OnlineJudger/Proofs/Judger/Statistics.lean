import OnlineJudger.Proofs.Judger.LostRequests
import OnlineJudger.Proofs.Judger.Server

/-!
# `OnlineJudger.Proofs.Judger.Statistics`: the counted columns

The writer counts the rows of `solution` anew behind each `updateSolution`, with one statement for
each counted column. In between, rows of the same user or problem come and change. So a column is
wrong in most states.

A `Column` is one of the four, with its key: the user or the problem. `Column.Covered` says for
each key that the value is right, or that a row with the key is open, or that the statement for
the key is still to come. Every step keeps it (`covered_step`), and without open rows and
statements only the first case is left (`counts_right_when_idle`).

The user name goes into the two statements of its columns as it is. So the rows are counted for the
names that a statement keeps (`UserNameOk`), on a server that `ReadsUsers`. With another name the
statements can count other rows, and write to the rows of other users (`counts_wrong_when_idle`).
-/

set_option autoImplicit false

namespace OnlineJudger

open Lib Lib.Sql

/-! ### Names -/

/-- A name that comes back from the wide text of the tasks, and that is plain between quotes. On
`latin1` a name of letters and digits is like that. -/
def UserNameOk (page : CodePage) (userID : Text) : Prop :=
  wcharToChar page (charToWChar page userID) = userID ∧ Plain '\'' userID

/-- A conversion and a scan for quotes. -/
instance (page : CodePage) (userID : Text) : Decidable (UserNameOk page userID) := by
  unfold UserNameOk
  infer_instance

/-- The identity that the statements of a task give to the row of the task. -/
def TaskBase.rowIdentity (page : CodePage) (task : TaskBase) : Int × Int × Text :=
  (task.solutionID, task.problemID, wcharToChar page task.userName)

namespace Database

/-- All names of the rows are good. -/
def NamesOk (db : Database) : Prop := ∀ i ∈ db.identities, UserNameOk db.server.page i.2.2

/-- With good names, the identity of a task leads back to its row. -/
theorem NamesOk.rowIdentity_mem {db : Database} (h : db.NamesOk) {task : TaskBase}
    (htask : task.identity ∈ db.taskIdentities) :
    task.rowIdentity db.server.page ∈ db.identities := by
  obtain ⟨i, hi, heq⟩ := List.mem_map.mp htask
  obtain ⟨hid, hproblem, hname⟩ : i.1 = task.solutionID ∧ i.2.1 = task.problemID ∧
      charToWChar db.server.page i.2.2 = task.userName := by
    simpa only [wideIdentity, TaskBase.identity, Prod.mk.injEq] using heq
  have hrow : task.rowIdentity db.server.page = i := by
    rw [TaskBase.rowIdentity, ← hid, ← hproblem, ← hname, (h i hi).1]
  rw [hrow]
  exact hi

/-- The statements of the task read the rows of its user: the server does what the templates say,
and the name is plain. -/
structure ReadsTask (db : Database) (task : TaskBase) : Prop where
  server : db.server.ReadsUsers
  plain : Plain '\'' (wcharToChar db.server.page task.userName)

/-- With good names, the statements of a task read the rows of its user. -/
theorem NamesOk.readsTask {db : Database} (h : db.NamesOk) (hserver : db.server.ReadsUsers)
    {task : TaskBase} (htask : task.identity ∈ db.taskIdentities) : db.ReadsTask task :=
  ⟨hserver, (h _ (h.rowIdentity_mem htask)).2⟩

end Database

namespace State

/-- The submissions that come have good names. -/
def GoodNames (page : CodePage) : Action → Prop
  | .submit row => UserNameOk page row.userID
  | _ => True

/-- Only a submission has a name to look at. -/
instance (page : CodePage) (a : Action) : Decidable (GoodNames page a) := by
  unfold GoodNames
  split <;> infer_instance

/-- The names stay good while only good ones come. -/
theorem namesOk_step {config : Config} {s s' : State} {page : CodePage}
    (hpage : s.db.server.page = page) (h : s.db.NamesOk) (a : Action) (ha : GoodNames page a)
    (hstep : step config s a = some s') : s'.db.NamesOk := by
  unfold Database.NamesOk
  rw [server_step a hstep]
  rcases identities_step a hstep with heq | ⟨row, rfl, heq⟩
  · rw [heq]
    exact h
  · rw [heq]
    intro i hi
    rcases List.mem_append.mp hi with hi | hi
    · exact h i hi
    · rw [List.mem_singleton.mp hi, hpage]
      exact ha

end State

/-! ### The counts -/

namespace Database

/-- The problems that the user has solved, each one once. -/
def solvedCount (config : Config) (db : Database) (userID : Text) : ℕ :=
  let rows := db.solution.filter fun r => r.userID = userID ∧ r.result = config.JE_ACCEPT
  (rows.map SolutionRow.problemID).dedup.length

/-- The submissions of the user. -/
def userSubmitCount (db : Database) (userID : Text) : ℕ :=
  (db.solution.filter fun r => r.userID = userID).length

/-- The accepted solutions of the problem. -/
def acceptCount (config : Config) (db : Database) (problemID : Int) : ℕ :=
  (db.solution.filter fun r => r.problemID = problemID ∧ r.result = config.JE_ACCEPT).length

/-- The submissions of the problem. -/
def problemSubmitCount (db : Database) (problemID : Int) : ℕ :=
  (db.solution.filter fun r => r.problemID = problemID).length

/-- The counted columns are right: each stored number is the one that the rows of `solution` give at
this moment. -/
structure CountsRight (config : Config) (db : Database) : Prop where
  solved : ∀ u ∈ db.users, u.solved = db.solvedCount config u.userID
  userSubmit : ∀ u ∈ db.users, u.submit = db.userSubmitCount u.userID
  accepted : ∀ p ∈ db.problem, p.accepted = db.acceptCount config p.problemID
  problemSubmit : ∀ p ∈ db.problem, p.submit = db.problemSubmitCount p.problemID

/-! ### The rows with one key -/

section Rows

variable {κ : Type} [DecidableEq κ] (key : Int × Int × Text → κ)

/-- The rows of `solution` with this key. -/
def rowsOf (db : Database) (k : κ) : List SolutionRow :=
  db.solution.filter fun r => key r.identity = k

/-- An update of a row touches the rows of its key only. -/
theorem rowsOf_setSolution (db : Database) (id : Int) (f : SolutionRow → SolutionRow)
    (hf : ∀ r, (f r).solutionID = r.solutionID) (hidentity : ∀ r, (f r).identity = r.identity)
    (k : κ) (h : ∀ r ∈ db.solution, r.solutionID = id → key r.identity ≠ k) :
    (db.setSolution id f hf).rowsOf key k = db.rowsOf key k := by
  unfold rowsOf
  show ((db.solution.map fun r => if r.solutionID = id then f r else r).filter _) = _
  rw [List.filter_map]
  have hkey : ∀ r : SolutionRow, (if r.solutionID = id then f r else r).identity = r.identity := by
    intro r
    split
    · exact hidentity r
    · rfl
  simp only [Function.comp_def, hkey]
  refine (List.map_congr_left ?_).trans (List.map_id _)
  intro r hr
  obtain ⟨hr, hk⟩ := List.mem_filter.mp hr
  exact if_neg fun hid => h r hr hid (of_decide_eq_true hk)

/-- A submission adds one row to those of its key. -/
theorem rowsOf_submit (db : Database) {row : SolutionRow}
    (h : row.solutionID ∉ db.solution.map SolutionRow.solutionID) (k : κ) :
    (db.submit row h).rowsOf key k =
      db.rowsOf key k ++ if key row.identity = k then [row] else [] := by
  unfold rowsOf
  show (db.solution ++ [row]).filter _ = _
  rw [List.filter_append]
  refine congrArg _ ?_
  split
  · next hk => exact List.filter_cons_of_pos (decide_eq_true hk)
  · next hk => exact List.filter_cons_of_neg (by rwa [decide_eq_true_eq])

end Rows

end Database

/-! ### Columns -/

/-- A counted column. The four columns differ in their statement, their key and their count, and
everything else is proved about a column in general. -/
structure Column (config : Config) (κ : Type) [DecidableEq κ] where
  /-- The statement that counts anew. -/
  statement : WriteStatement
  /-- The key of a row of `solution` and of a task. -/
  key : Int × Int × Text → κ
  /-- The keys and values that are stored. -/
  cells : Database → List (κ × ℕ)
  count : Database → κ → ℕ
  count_congr : ∀ {db db' : Database} {k : κ}, db'.rowsOf key k = db.rowsOf key k →
    count db' k = count db k
  cells_congr : ∀ {db db' : Database}, db'.users = db.users → db'.problem = db.problem →
    cells db' = cells db
  cells_exec : ∀ (task : TaskBase) (db : Database), db.ReadsTask task →
    cells (statement.exec config task db) = (cells db).map fun c =>
      if c.1 = key (task.rowIdentity db.server.page) then
        (c.1, count db (key (task.rowIdentity db.server.page)))
      else c
  cells_exec_of_ne : ∀ (task : TaskBase) (db : Database) (other : WriteStatement),
    db.ReadsTask task → other ≠ statement → cells (other.exec config task db) = cells db

section Table

variable {α κ : Type} [DecidableEq κ] (l : List α) (key : α → κ) (value : α → ℕ) (set : α → α)
variable (k : κ)

/-- An update sets a field of the rows with one key. These are the cells of that field. -/
theorem map_cells (n : ℕ) (hkey : ∀ a, key (set a) = key a) (hvalue : ∀ a, value (set a) = n) :
    (l.map fun a => if key a = k then set a else a).map (fun a => (key a, value a)) =
      (l.map fun a => (key a, value a)).map fun c => if c.1 = k then (c.1, n) else c := by
  rw [List.map_map, List.map_map]
  refine List.map_congr_left fun a _ => ?_
  show (key (if key a = k then set a else a), value (if key a = k then set a else a)) =
    if key a = k then (key a, n) else (key a, value a)
  split
  · rw [hkey, hvalue]
  · rfl

/-- The update keeps the cells of another field. -/
theorem map_cells_of_other (hkey : ∀ a, key (set a) = key a)
    (hvalue : ∀ a, value (set a) = value a) :
    (l.map fun a => if key a = k then set a else a).map (fun a => (key a, value a)) =
      l.map fun a => (key a, value a) := by
  rw [List.map_map]
  refine List.map_congr_left fun a _ => ?_
  show (key (if key a = k then set a else a), value (if key a = k then set a else a)) = _
  split
  · rw [hkey, hvalue]
  · rfl

end Table

/-- The accepted rows with a key are found among the rows with the key. -/
theorem filter_and {α : Type} (p q : α → Prop) [DecidablePred p] [DecidablePred q] (l : List α) :
    (l.filter fun a => p a ∧ q a) = (l.filter fun a => p a).filter fun a => q a := by
  rw [List.filter_filter]
  refine List.filter_congr fun a _ => ?_
  rw [Bool.decide_and, Bool.and_comm]

section Users

variable {config : Config} {task : TaskBase} {db : Database}

/-- `sqlUpdateUserSolved` on the rows of `users`. -/
theorem users_userSolved (h : db.ReadsTask task) :
    (WriteStatement.userSolved.exec config task db).users =
      setUser db.users (wcharToChar db.server.page task.userName) fun r => { r with
        solved := db.solvedCount config (wcharToChar db.server.page task.userName) } :=
  h.server.solved config task db.solution db.users h.plain

/-- `sqlUpdateUserSubmit`. -/
theorem users_userSubmit (h : db.ReadsTask task) :
    (WriteStatement.userSubmit.exec config task db).users =
      setUser db.users (wcharToChar db.server.page task.userName) fun r => { r with
        submit := db.userSubmitCount (wcharToChar db.server.page task.userName) } :=
  h.server.submit task db.solution db.users h.plain

end Users

/-- `users.solved`. -/
def solvedColumn (config : Config) : Column config Text where
  statement := .userSolved
  key i := i.2.2
  cells db := db.users.map fun u => (u.userID, u.solved)
  count := Database.solvedCount config
  count_congr := by
    intro db db' k h
    unfold Database.solvedCount
    rw [filter_and, filter_and]
    exact congrArg (fun rows : List SolutionRow =>
      ((rows.filter fun r => r.result = config.JE_ACCEPT).map
        SolutionRow.problemID).dedup.length) h
  cells_congr := by
    intro db db' husers _
    rw [husers]
  cells_exec := by
    intro task db hreads
    rw [users_userSolved hreads]
    exact map_cells db.users UserRow.userID _ _ _ _ (fun _ => rfl) fun _ => rfl
  cells_exec_of_ne := by
    intro task db other hreads hne
    cases other with
    | userSolved => exact absurd rfl hne
    | userSubmit =>
      rw [users_userSubmit hreads]
      exact map_cells_of_other db.users UserRow.userID _ _ _ (fun _ => rfl) fun _ => rfl
    | _ => rfl

/-- `users.submit`. -/
def userSubmitColumn (config : Config) : Column config Text where
  statement := .userSubmit
  key i := i.2.2
  cells db := db.users.map fun u => (u.userID, u.submit)
  count := Database.userSubmitCount
  count_congr := by
    intro db db' k h
    exact congrArg List.length h
  cells_congr := by
    intro db db' husers _
    rw [husers]
  cells_exec := by
    intro task db hreads
    rw [users_userSubmit hreads]
    exact map_cells db.users UserRow.userID _ _ _ _ (fun _ => rfl) fun _ => rfl
  cells_exec_of_ne := by
    intro task db other hreads hne
    cases other with
    | userSubmit => exact absurd rfl hne
    | userSolved =>
      rw [users_userSolved hreads]
      exact map_cells_of_other db.users UserRow.userID _ _ _ (fun _ => rfl) fun _ => rfl
    | _ => rfl

/-- `problem.accepted`. -/
def acceptColumn (config : Config) : Column config Int where
  statement := .problemAccept
  key i := i.2.1
  cells db := db.problem.map fun p => (p.problemID, p.accepted)
  count := Database.acceptCount config
  count_congr := by
    intro db db' k h
    unfold Database.acceptCount
    rw [filter_and, filter_and]
    exact congrArg (fun rows : List SolutionRow =>
      (rows.filter fun r => r.result = config.JE_ACCEPT).length) h
  cells_congr := by
    intro db db' _ hproblem
    rw [hproblem]
  cells_exec := by
    intro task db _
    exact map_cells db.problem ProblemRow.problemID _ _ _ _ (fun _ => rfl) fun _ => rfl
  cells_exec_of_ne := by
    intro task db other _ hne
    cases other with
    | problemAccept => exact absurd rfl hne
    | problemSubmit =>
      exact map_cells_of_other db.problem ProblemRow.problemID _ _ _ (fun _ => rfl) fun _ => rfl
    | _ => rfl

/-- `problem.submit`. -/
def problemSubmitColumn (config : Config) : Column config Int where
  statement := .problemSubmit
  key i := i.2.1
  cells db := db.problem.map fun p => (p.problemID, p.submit)
  count := Database.problemSubmitCount
  count_congr := by
    intro db db' k h
    exact congrArg List.length h
  cells_congr := by
    intro db db' _ hproblem
    rw [hproblem]
  cells_exec := by
    intro task db _
    exact map_cells db.problem ProblemRow.problemID _ _ _ _ (fun _ => rfl) fun _ => rfl
  cells_exec_of_ne := by
    intro task db other _ hne
    cases other with
    | problemSubmit => exact absurd rfl hne
    | problemAccept =>
      exact map_cells_of_other db.problem ProblemRow.problemID _ _ _ (fun _ => rfl) fun _ => rfl
    | _ => rfl

/-! ### Right values, open rows and statements to come -/

namespace Column

variable {config : Config} {κ : Type} [DecidableEq κ] {col : Column config κ}
variable {s s' : State} {k : κ}

/-- The stored values of the key are right. There may be more than one row with a key among the
users. -/
def Right (col : Column config κ) (db : Database) (k : κ) : Prop :=
  ∀ n, (k, n) ∈ col.cells db → n = col.count db k

/-- A row with the key is open. When its verdict comes, the counts of the key are made anew. -/
def Open (col : Column config κ) (db : Database) (k : κ) : Prop :=
  ∃ r ∈ db.rowsOf col.key k, r.result ∈ config.openCodes

/-- The writer has still to count the rows with the key. Its statement for this column has not run
yet. -/
def Pending (col : Column config κ) (s : State) (k : κ) : Prop :=
  ∃ t statements, s.writer = .writing t statements ∧ col.statement ∈ statements ∧
    col.key (t.task.rowIdentity s.db.server.page) = k

/-- A wrong value has an excuse: a row with its key is open, or the writer is about to count. It is
what every step keeps. -/
def Covered (col : Column config κ) (s : State) (k : κ) : Prop :=
  col.Right s.db k ∨ col.Open s.db k ∨ col.Pending s k

/-- The rows with the key and the stored values are the same. -/
theorem Right.congr {db db' : Database} (h : col.Right db k)
    (hrows : db'.rowsOf col.key k = db.rowsOf col.key k) (hcells : col.cells db' = col.cells db) :
    col.Right db' k := by
  intro n hn
  rw [col.count_congr hrows]
  exact h n (hcells ▸ hn)

/-- An open row of the key is still there. -/
theorem Open.congr {db db' : Database} (h : col.Open db k)
    (hrows : db'.rowsOf col.key k = db.rowsOf col.key k) : col.Open db' k := by
  unfold Open
  rw [hrows]
  exact h

/-- A step that does not touch the rows with the key. -/
theorem Covered.congr (h : col.Covered s k)
    (hrows : s'.db.rowsOf col.key k = s.db.rowsOf col.key k)
    (hcells : col.cells s'.db = col.cells s.db) (hpending : col.Pending s k → col.Pending s' k) :
    col.Covered s' k := by
  rcases h with hright | hopen | h
  · exact .inl (hright.congr hrows hcells)
  · exact .inr (.inl (hopen.congr hrows))
  · exact .inr (.inr (hpending h))

/-- A row of the key is open after the update of one row, or the update was not one of the key. -/
theorem open_setSolution (col : Column config κ) (db : Database) (id : Int)
    (f : SolutionRow → SolutionRow) (hf : ∀ r, (f r).solutionID = r.solutionID)
    (hidentity : ∀ r, (f r).identity = r.identity) (hopen : ∀ r, (f r).result ∈ config.openCodes)
    (k : κ) :
    col.Open (db.setSolution id f hf) k ∨
      (db.setSolution id f hf).rowsOf col.key k = db.rowsOf col.key k := by
  by_cases h : ∃ r ∈ db.solution, r.solutionID = id ∧ col.key r.identity = k
  · obtain ⟨r, hr, hid, hk⟩ := h
    refine .inl ⟨f r, List.mem_filter.mpr ⟨List.mem_map.mpr ⟨r, hr, if_pos hid⟩, ?_⟩, hopen r⟩
    rw [hidentity]
    exact decide_eq_true hk
  · refine .inr (db.rowsOf_setSolution col.key id f hf hidentity k ?_)
    intro r hr hid hk
    exact h ⟨r, hr, hid, hk⟩

/-- The row that a task updates has the key of the task. -/
theorem key_eq_of_update (col : Column config κ) {db : Database} {task : TaskBase}
    (htask : task.rowIdentity db.server.page ∈ db.identities) {r : SolutionRow}
    (hr : r ∈ db.solution) (hid : r.solutionID = task.solutionID) :
    col.key r.identity = col.key (task.rowIdentity db.server.page) := by
  obtain ⟨r', hr', heq⟩ := List.mem_map.mp htask
  have hid' : r'.solutionID = task.solutionID := congrArg Prod.fst heq
  rw [List.inj_on_of_nodup_map db.solution_nodup hr hr' (hid.trans hid'.symm), heq]

/-- The statement of the column makes the values of its key right, and keeps those of other
keys. -/
theorem right_exec (col : Column config κ) {task : TaskBase} {db : Database}
    (hreads : db.ReadsTask task)
    (h : col.key (task.rowIdentity db.server.page) = k ∨ col.Right db k) :
    col.Right (col.statement.exec config task db) k := by
  have hrows : (col.statement.exec config task db).rowsOf col.key k = db.rowsOf col.key k := by
    unfold Database.rowsOf
    rw [State.exec_solution]
  intro n hn
  rw [col.count_congr hrows]
  rw [col.cells_exec task db hreads] at hn
  obtain ⟨c, hc, heq⟩ := List.mem_map.mp hn
  split at heq
  · next hkey =>
    rw [Prod.mk.injEq] at heq
    rw [← heq.2, ← hkey, heq.1]
  · next hkey =>
    subst heq
    exact (h.resolve_left fun hk => hkey hk.symm) n hc

/-- Every step keeps what covers the values. One case for each way in which a step can reach the
database: a value gets wrong only with a row that is open, or with a statement to come. -/
theorem covered_step (col : Column config κ) (hstatement : ∀ task : TaskBase,
      col.statement ∈ WriteStatement.ofTask config task) (hs : State.Reachable config s)
    (hserver : s.db.server.ReadsUsers) (hnames : s.db.NamesOk) (h : col.Covered s k) (a : Action)
    (ha : a.succeeds = true) (hstep : State.step config s a = some s') : col.Covered s' k := by
  have hserver' := State.server_step a hstep
  cases State.db_step a hstep with
  | same hdb hwritten hwriter =>
    refine h.congr (by rw [hdb]) (by rw [hdb]) ?_
    rintro ⟨t, statements, hpc, hmem, hkey⟩
    exact ⟨t, statements, (hwriter t statements).mpr hpc, hmem, by rw [hserver', hkey]⟩
  | @submit row hnew hresult hs' =>
    subst hs'
    have hrows := s.db.rowsOf_submit col.key hnew k
    by_cases hkey : col.key row.identity = k
    · -- the new row is pending
      rw [if_pos hkey] at hrows
      refine .inr (.inl ⟨row, ?_, ?_⟩)
      · show row ∈ (s.db.submit row hnew).rowsOf col.key k
        rw [hrows]
        exact List.mem_append_right _ (List.mem_singleton_self row)
      · rw [hresult]
        exact List.mem_cons_self ..
    · rw [if_neg hkey, List.append_nil] at hrows
      exact h.congr hrows (col.cells_congr rfl rfl) id
  | @rejudge id hs' =>
    subst hs'
    have hopen : config.JE_REJUDGE ∈ config.openCodes := by
      simp only [Config.openCodes, List.mem_cons, true_or, or_true]
    rcases col.open_setSolution s.db id (fun r => { r with result := config.JE_REJUDGE })
      (fun _ => rfl) (fun _ => rfl) (fun _ => hopen) k with hopen | hrows
    · exact .inr (.inl hopen)
    · exact h.congr hrows (col.cells_congr rfl rfl) fun hpending => hpending
  | @compiling _ row _ _ hdb _ hwriter =>
    have hopen : config.JE_COMPILING ∈ config.openCodes := by
      simp only [Config.openCodes, List.mem_cons, true_or, or_true]
    rcases col.open_setSolution s.db row.solutionID
      (fun r => { r with result := config.JE_COMPILING }) (fun _ => rfl) (fun _ => rfl)
      (fun _ => hopen) k with hopen | hrows
    · refine .inr (.inl ?_)
      rw [hdb]
      exact hopen
    · refine h.congr ?_ ?_ ?_
      · rw [hdb]
        exact hrows
      · rw [hdb]
        exact col.cells_congr rfl rfl
      · unfold Pending
        rw [hwriter, hserver']
        exact id
  | @update t ok hpc hs' =>
    subst hs'
    obtain rfl : ok = true := ha
    by_cases hkey : col.key (t.task.rowIdentity s.db.server.page) = k
    · exact .inr (.inr ⟨t, _, rfl, hstatement t.task, hkey⟩)
    · have hmem := State.held_mem_reported hs hpc
      have horigin := ((State.origins_of_reachable hs).reported t hmem).1
      have hrows : (s.db.updateSolution t.task).rowsOf col.key k = s.db.rowsOf col.key k := by
        unfold Database.updateSolution
        apply s.db.rowsOf_setSolution col.key
        · intro r
          rfl
        · intro r hr hid
          rw [col.key_eq_of_update (hnames.rowIdentity_mem horigin) hr hid]
          exact hkey
      refine h.congr hrows (col.cells_congr rfl rfl) ?_
      rintro ⟨u, statements, hpc', -⟩
      rw [hpc] at hpc'
      exact WriterPc.noConfusion hpc'
  | @query t statement statements ok hpc hs' =>
    subst hs'
    obtain rfl : ok = true := ha
    have hrows : (statement.exec config t.task s.db).rowsOf col.key k =
        s.db.rowsOf col.key k := by
      unfold Database.rowsOf
      rw [State.exec_solution]
    have hreads := hnames.readsTask hserver (State.writing_identity hs hpc)
    by_cases hown : statement = col.statement
    · subst hown
      rcases h with hright | hopen | ⟨u, _, hpc', -, hkey⟩
      · exact .inl (col.right_exec hreads (.inr hright))
      · exact .inr (.inl (hopen.congr hrows))
      · rw [hpc, WriterPc.writing.injEq] at hpc'
        rw [← hpc'.1] at hkey
        exact .inl (col.right_exec hreads (.inl hkey))
    · refine h.congr hrows (col.cells_exec_of_ne _ _ _ hreads hown) ?_
      rintro ⟨u, all, hpc', hmem, hkey⟩
      rw [hpc, WriterPc.writing.injEq] at hpc'
      obtain ⟨rfl, rfl⟩ := hpc'
      -- the statement of the column is among those that are left
      have hleft := (List.mem_cons.mp hmem).resolve_left (Ne.symm hown)
      refine ⟨t, statements, if_neg (List.ne_nil_of_mem hleft), hleft, ?_⟩
      rw [hserver', hkey]

/-- The values are right when no row is open and no statement is to come: the other two cases of
`Covered` are out. -/
theorem right_of_idle (col : Column config κ) (hstatement : ∀ task : TaskBase,
      col.statement ∈ WriteStatement.ofTask config task) {db : Database} {cores : ℕ}
    {actions : List Action} (hserver : db.server.ReadsUsers) (hnames : db.NamesOk)
    (hdb : ∀ k, col.Right db k)
    (hactions : ∀ a ∈ actions, a.succeeds = true ∧ State.GoodNames db.server.page a)
    (hrun : run (State.step config) (State.start db cores) actions = some s)
    (hopen : ∀ r ∈ s.db.solution, r.result ∉ config.openCodes) (hwriter : s.writer = .getting)
    (k : κ) : col.Right s.db k := by
  -- reachable, on the same server, with names that can be told apart
  let Inv : State → Prop := fun s =>
    State.Reachable config s ∧ s.db.server = db.server ∧ s.db.NamesOk ∧ col.Covered s k
  have hstep : ∀ s a s', a.succeeds = true ∧ State.GoodNames db.server.page a → Inv s →
      State.step config s a = some s' → Inv s' := by
    rintro s a s' ⟨ha, hname⟩ ⟨hs, hsame, hgood, h⟩ hstep
    refine ⟨hs.step hstep, (State.server_step a hstep).trans hsame, ?_, ?_⟩
    · exact State.namesOk_step (congrArg Server.page hsame) hgood a hname hstep
    · exact col.covered_step hstatement hs (hsame ▸ hserver) hgood h a ha hstep
  have hstart : Inv (State.start db cores) :=
    ⟨⟨db, cores, [], rfl⟩, rfl, hnames, .inl (hdb k)⟩
  -- covered means right, or a row still open, or a statement still to come
  obtain ⟨-, -, -, hright | ⟨r, hr, hresult⟩ | ⟨t, statements, hpc, -, -⟩⟩ :=
    run_invariant hstep hactions hstart hrun
  · exact hright
  -- every row is settled
  · exact absurd hresult (hopen r (List.mem_filter.mp hr).1)
  -- the writer holds no task
  · rw [hwriter] at hpc
    exact WriterPc.noConfusion hpc

end Column

namespace State

variable {config : Config} {s : State}

/-- The judge has nothing to do: every row is settled, both queues are empty, and no thread holds a
task. -/
structure Idle (config : Config) (s : State) : Prop where
  settled : ∀ r ∈ s.db.solution, r.result ∉ config.openCodes
  tasks : s.tasks.pool = []
  finishTask : s.finishTask.pool = []
  cores : ∀ c ∈ s.cores, CorePc.task c = none
  writer : s.writer = .getting

/-- All that it asks for are finite lists and places. -/
instance (config : Config) (s : State) : Decidable (Idle config s) :=
  decidable_of_iff ((∀ r ∈ s.db.solution, r.result ∉ config.openCodes) ∧ s.tasks.pool = [] ∧
      s.finishTask.pool = [] ∧ (∀ c ∈ s.cores, CorePc.task c = none) ∧ s.writer = .getting)
    ⟨fun ⟨h₁, h₂, h₃, h₄, h₅⟩ => ⟨h₁, h₂, h₃, h₄, h₅⟩,
      fun ⟨h₁, h₂, h₃, h₄, h₅⟩ => ⟨h₁, h₂, h₃, h₄, h₅⟩⟩

/-- The cells of a table, one for each row. -/
theorem forall_cell_iff {α κ : Type} {l : List α} {key : α → κ} {value : α → ℕ} {count : κ → ℕ} :
    (∀ k n, (k, n) ∈ l.map (fun a => (key a, value a)) → n = count k) ↔
      ∀ a ∈ l, value a = count (key a) := by
  constructor
  · intro h a ha
    exact h (key a) (value a) (List.mem_map.mpr ⟨a, ha, rfl⟩)
  · intro h k n hn
    obtain ⟨a, ha, heq⟩ := List.mem_map.mp hn
    obtain ⟨rfl, rfl⟩ := Prod.mk.inj heq
    exact h a ha

/-- The four columns, each with all of its keys. -/
theorem countsRight_iff (config : Config) (db : Database) :
    db.CountsRight config ↔ (∀ k, (solvedColumn config).Right db k) ∧
      (∀ k, (userSubmitColumn config).Right db k) ∧ (∀ k, (acceptColumn config).Right db k) ∧
      ∀ k, (problemSubmitColumn config).Right db k := by
  constructor
  · rintro ⟨hsolved, hsubmit, haccept, hproblem⟩
    exact ⟨forall_cell_iff.mpr hsolved, forall_cell_iff.mpr hsubmit, forall_cell_iff.mpr haccept,
      forall_cell_iff.mpr hproblem⟩
  · rintro ⟨hsolved, hsubmit, haccept, hproblem⟩
    exact ⟨forall_cell_iff.mp hsolved, forall_cell_iff.mp hsubmit, forall_cell_iff.mp haccept,
      forall_cell_iff.mp hproblem⟩

/-- The counts were right in the beginning, no statement fails, and every name is plain and comes
back from its conversion. Then the counts are right again whenever the judge has nothing to do.
While it is busy, a count may be behind, but only for a user or a problem of a task on its way. The
run is of any length, with any number of cores. -/
theorem counts_right_when_idle {db : Database} {cores : ℕ} {actions : List Action}
    (hserver : db.server.ReadsUsers) (hdb : db.CountsRight config)
    (hactions : ∀ a ∈ actions, a.succeeds = true)
    (hrun : run (step config) (start db cores) actions = some s) (hidle : Idle config s)
    (hnames : db.NamesOk) (hgood : ∀ a ∈ actions, GoodNames db.server.page a) :
    s.db.CountsRight config := by
  obtain ⟨hsolved, hsubmit, haccept, hproblem⟩ := (countsRight_iff config db).mp hdb
  -- the statements that refresh a column belong to every task
  have hmem : ∀ statement, statement ∈ [WriteStatement.userSolved, .userSubmit, .problemAccept,
      .problemSubmit, .deleteCompile] → ∀ task : TaskBase,
      statement ∈ WriteStatement.ofTask config task :=
    fun _ h _ => List.mem_append_left _ h
  have hboth : ∀ a ∈ actions, a.succeeds = true ∧ GoodNames db.server.page a :=
    fun a ha => ⟨hactions a ha, hgood a ha⟩
  refine (countsRight_iff config s.db).mpr ⟨?_, ?_, ?_, ?_⟩
  · exact (solvedColumn config).right_of_idle (hmem _ (by simp [solvedColumn])) hserver hnames
      hsolved hboth hrun hidle.settled hidle.writer
  · exact (userSubmitColumn config).right_of_idle (hmem _ (by simp [userSubmitColumn])) hserver
      hnames hsubmit hboth hrun hidle.settled hidle.writer
  · exact (acceptColumn config).right_of_idle (hmem _ (by simp [acceptColumn])) hserver hnames
      haccept hboth hrun hidle.settled hidle.writer
  · exact (problemSubmitColumn config).right_of_idle (hmem _ (by simp [problemSubmitColumn]))
      hserver hnames hproblem hboth hrun hidle.settled hidle.writer

/-! ### A run with a submission of one of two users -/

/-- Two users, and no solution yet. -/
def noSubmission (userID : Text) : Database where
  solution := []
  problem := [{ problemID := 1, timeLimit := 1, memoryLimit := 64 }]
  users := [{ userID }, { userID := "bob".toList }]
  solution_nodup := List.nodup_nil
  problem_nodup := List.nodup_singleton _

/-- A submission of this user comes and is judged. -/
def judgeSubmission (userID : Text) : List Action :=
  .submit { solutionID := 1000, problemID := 1, userID, language := 0, result := 0 } ::
    [.readerCheck, .readerSelect (.rows [{ pendingRow with userID }]), .readerRow [] true,
      .readerAdd] ++
    judgeAndWrite ++ List.replicate 6 (.writerQuery true) ++ [.writerCheck]

/-- The submission of one user is judged, and both users have the right numbers. -/
theorem counts_right_after_submission :
    ∃ s, run (step {}) (start (noSubmission "alice".toList) 1) (judgeSubmission "alice".toList) =
        some s ∧
      s.db.users.map UserRow.submit = [1, 0] ∧ s.db.CountsRight {} := by
  have hend : (run (step {}) (start (noSubmission "alice".toList) 1)
      (judgeSubmission "alice".toList)).map (fun s =>
        decide (s.db.users.map UserRow.submit = [1, 0] ∧ Idle {} s)) = some true := by
    decide +kernel
  obtain ⟨s, hrun, hs⟩ := Option.map_eq_some_iff.mp hend
  obtain ⟨hsubmit, hidle⟩ := of_decide_eq_true hs
  have hdb : (noSubmission "alice".toList).CountsRight {} := by
    constructor <;> decide
  have hgood : ∀ a ∈ judgeSubmission "alice".toList, GoodNames latin1 a := by
    decide
  refine ⟨s, hrun, hsubmit, ?_⟩
  exact counts_right_when_idle (Server.readsUsers_exec latin1) hdb (by decide) hrun hidle
    (fun i hi => absurd hi List.not_mem_nil) hgood

/-- A user has a name with quotes. The statement that counts his submissions counts all of them, and
stores the number for all users, so the other users have wrong numbers although nothing has
failed. -/
theorem counts_wrong_when_idle :
    ¬∀ (config : Config) (db : Database) (cores : ℕ) (actions : List Action) (s : State),
      db.server.ReadsUsers → db.CountsRight config → (∀ a ∈ actions, a.succeeds = true) →
      run (step config) (start db cores) actions = some s → Idle config s →
      s.db.CountsRight config := by
  intro hall
  have hend : (run (step {}) (start (noSubmission "' OR '1'='1".toList) 1)
      (judgeSubmission "' OR '1'='1".toList)).map (fun s =>
        decide (Idle {} s ∧ (∃ u ∈ s.db.users, u.submit ≠ s.db.userSubmitCount u.userID))) =
      some true := by
    decide +kernel
  obtain ⟨s, hrun, hs⟩ := Option.map_eq_some_iff.mp hend
  obtain ⟨hidle, u, hu, hne⟩ := of_decide_eq_true hs
  have hdb : (noSubmission "' OR '1'='1".toList).CountsRight {} := by
    constructor <;> decide
  have hright := hall {} _ 1 _ s (Server.readsUsers_exec latin1) hdb (by decide) hrun hidle
  exact hne (hright.userSubmit u hu)

end State

end OnlineJudger
