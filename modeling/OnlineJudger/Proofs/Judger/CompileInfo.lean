import OnlineJudger.Proofs.Judger.Orphans
import OnlineJudger.Proofs.Judger.Origins

/-!
# `OnlineJudger.Proofs.Judger.CompileInfo`: the compile errors in the database

`updateInfo` deletes the rows of a solution from `compileinfo` and stores a new one when the
program did not compile. In between the other threads go on, and the same solution can be judged
many times. `shown` says what the table should hold after the tasks that were written: what the
last of them left. `InfoInv` says where the writer stands on the way there.

The table holds bytes. The compile error of a task is a wide text, and it is converted in the code
page of the server.

The main result is `compileinfo_shown`.
-/

set_option autoImplicit false

namespace OnlineJudger

open Lib

/-- The texts of `compileinfo` for a solution. -/
def Database.infoOf (db : Database) (id : Int) : List Text :=
  (db.compileinfo.filter fun r => r.1 = id).map Prod.snd

/-- What `updateInfo` leaves behind for a task: the bytes of its compile error, or nothing. -/
def infoAfter (page : CodePage) (config : Config) (task : TaskBase) : List Text :=
  if task.result = config.JE_COMPLIE then [wcharToChar page task.compileErrorStr] else []

/-- What the table holds of a solution after these tasks, in place of `first`. Each task of the
solution replaces what was there, so the last one decides. -/
def shown (page : CodePage) (config : Config) (id : Int) (first : List Text)
    (written : List TaskObj) : List Text :=
  written.foldl
    (fun rows t => if t.task.solutionID = id then infoAfter page config t.task else rows) first

section Shown

variable {page : CodePage} {config : Config} {id : Int} {first : List Text}

/-- One more task is written. -/
theorem shown_append (written : List TaskObj) (t : TaskObj) :
    shown page config id first (written ++ [t]) =
      if t.task.solutionID = id then infoAfter page config t.task
      else shown page config id first written := by
  rw [shown, List.foldl_append, List.foldl_cons, List.foldl_nil]
  rfl

/-- `updateInfo` leaves one row at most. -/
theorem length_infoAfter_le (page : CodePage) (config : Config) (task : TaskBase) :
    (infoAfter page config task).length ≤ 1 := by
  unfold infoAfter
  split
  · exact Nat.le_refl 1
  · exact Nat.zero_le 1

/-- At most one row is shown. By induction on the tasks, from the last one. -/
theorem length_shown_le (hfirst : first.length ≤ 1) (written : List TaskObj) :
    (shown page config id first written).length ≤ 1 := by
  induction written using List.reverseRecOn with
  | nil => exact hfirst
  | append_singleton written t ih =>
    rw [shown_append]
    split
    · exact length_infoAfter_le page config t.task
    · exact ih

end Shown

/-! ### The statements -/

section Statements

variable {config : Config} {task : TaskBase} {db : Database} {id : Int}

/-- Only two of the statements write to the table. -/
theorem infoOf_exec_of_ne {statement : WriteStatement} (hdelete : statement ≠ .deleteCompile)
    (hinsert : statement ≠ .insertCompile) :
    (statement.exec config task db).infoOf id = db.infoOf id := by
  cases statement with
  | deleteCompile => exact absurd rfl hdelete
  | insertCompile => exact absurd rfl hinsert
  | _ => rfl

/-- The first of them empties it for the solution of the task. -/
theorem infoOf_deleteCompile (db : Database) (task : TaskBase) (id : Int) :
    (db.deleteCompile task).infoOf id = if task.solutionID = id then [] else db.infoOf id := by
  show ((db.compileinfo.filter fun r => r.1 ≠ task.solutionID).filter fun r => r.1 = id).map
    Prod.snd = _
  rw [List.filter_filter]
  split
  · next hid =>
    rw [List.map_eq_nil_iff, List.filter_eq_nil_iff]
    intro r _
    simp only [hid, ne_eq, decide_not, Bool.and_eq_true, decide_eq_true_eq, Bool.not_eq_true',
      decide_eq_false_iff_not, not_and, not_not]
    exact fun h => h
  · next hid =>
    refine congrArg (List.map Prod.snd) (List.filter_congr fun r _ => ?_)
    by_cases hr : r.1 = id
    · simp only [hr, decide_true, ne_eq, Ne.symm hid, not_false_eq_true, Bool.and_self]
    · simp only [hr, decide_false, Bool.false_and]

/-- The second one puts the bytes of the compile error there. -/
theorem infoOf_insertCompile (db : Database) (task : TaskBase) (id : Int) :
    (db.insertCompile task).infoOf id =
      db.infoOf id ++ if task.solutionID = id then
        [wcharToChar db.server.page task.compileErrorStr] else [] := by
  show ((db.compileinfo ++ [(task.solutionID,
    wcharToChar db.server.page task.compileErrorStr)]).filter fun r => r.1 = id).map Prod.snd = _
  rw [List.filter_append, List.map_append]
  refine congrArg _ ?_
  split
  · next hid =>
    simp only [List.filter_cons, hid, decide_true, if_true, List.filter_nil, List.map_singleton]
  · next hid =>
    simp only [List.filter_cons, hid, decide_false, Bool.false_eq_true, if_false, List.filter_nil,
      List.map_nil]

/-- Where a statement stands among those of `doWrite`. The delete comes behind the counts and in
front of the insert, which is there for a compile error only. -/
theorem of_suffix_ofTask {statement : WriteStatement} {statements : List WriteStatement}
    (h : statement :: statements <:+ WriteStatement.ofTask config task) :
    (statement ≠ .deleteCompile ∧ statement ≠ .insertCompile ∧
        WriteStatement.deleteCompile ∈ statements) ∨
      (statement = .deleteCompile ∧ statements =
        if task.result = config.JE_COMPLIE then [.insertCompile] else []) ∨
      (statement = .insertCompile ∧ statements = [] ∧ task.result = config.JE_COMPLIE) := by
  unfold WriteStatement.ofTask at h
  split at h
  -- a compile error: six statements, the last of which inserts the row
  · next hresult =>
    simp only [List.cons_append, List.nil_append, List.suffix_cons_iff, List.cons.injEq,
      List.suffix_nil, reduceCtorEq, or_false] at h
    rcases h with ⟨rfl, rfl⟩ | ⟨rfl, rfl⟩ | ⟨rfl, rfl⟩ | ⟨rfl, rfl⟩ | ⟨rfl, rfl⟩ | ⟨rfl, rfl⟩
    · exact .inl ⟨by decide, by decide, by decide⟩
    · exact .inl ⟨by decide, by decide, by decide⟩
    · exact .inl ⟨by decide, by decide, by decide⟩
    · exact .inl ⟨by decide, by decide, by decide⟩
    -- the delete has the insert behind it
    · exact .inr (.inl ⟨rfl, (if_pos hresult).symm⟩)
    · exact .inr (.inr ⟨rfl, rfl, hresult⟩)
  -- any other result: the five statements without the insert
  · next hresult =>
    simp only [List.append_nil, List.suffix_cons_iff, List.cons.injEq, List.suffix_nil,
      reduceCtorEq, or_false] at h
    rcases h with ⟨rfl, rfl⟩ | ⟨rfl, rfl⟩ | ⟨rfl, rfl⟩ | ⟨rfl, rfl⟩ | ⟨rfl, rfl⟩
    · exact .inl ⟨by decide, by decide, by decide⟩
    · exact .inl ⟨by decide, by decide, by decide⟩
    · exact .inl ⟨by decide, by decide, by decide⟩
    · exact .inl ⟨by decide, by decide, by decide⟩
    -- the delete is the last one
    · exact .inr (.inl ⟨rfl, (if_neg hresult).symm⟩)

end Statements

namespace State

variable {page : CodePage} {config : Config} {s s' : State} {id : Int} {first : List Text}

/-- The delete and the insert of `updateInfo` succeed. Other statements may fail, and they may do so
at any time. -/
def infoSucceeds (s : State) : Action → Bool
  | .writerQuery ok =>
    match s.writer with
    | .writing _ (.deleteCompile :: _) => ok
    | .writing _ (.insertCompile :: _) => ok
    | _ => true
  | _ => true

/-- What the table holds of a solution, with what the writer has still to do. Between the delete and
the insert there is no row. -/
def infoRows (page : CodePage) (config : Config) (id : Int) (first : List Text) (s : State) :
    List Text :=
  match s.writer with
  | .writing t statements =>
    if t.task.solutionID = id then
      -- the rows of the task before are still there
      if .deleteCompile ∈ statements then shown page config id first s.written.dropLast
      else if .insertCompile ∈ statements then []
      else shown page config id first s.written
    else shown page config id first s.written
  | _ => shown page config id first s.written

/-- The table holds what it should, and the writer is somewhere behind `updateSolution`: its task is
the last one written, and its statements are an end of the list for that task. -/
structure InfoInv (page : CodePage) (config : Config) (id : Int) (first : List Text) (s : State) :
    Prop where
  rows : s.db.infoOf id = infoRows page config id first s
  last : ∀ t statements, s.writer = .writing t statements → ∃ done, s.written = done ++ [t]
  suffix : ∀ t statements, s.writer = .writing t statements →
    statements <:+ WriteStatement.ofTask config t.task

/-- Between two tasks the table holds what it should. -/
theorem infoRows_of_not_writing (h : ∀ t statements, s.writer ≠ .writing t statements) :
    infoRows page config id first s = shown page config id first s.written := by
  unfold infoRows
  split
  · next t statements hpc => exact absurd hpc (h t statements)
  · rfl

/-- The writer is in front of the first statement, or between two of them, and the task is of
another solution. -/
theorem infoRows_of_ne {t : TaskObj} {statements : List WriteStatement}
    (hpc : s.writer = .writing t statements) (hne : t.task.solutionID ≠ id) :
    infoRows page config id first s = shown page config id first s.written := by
  simp only [infoRows, hpc, if_neg hne]

/-- A step that leaves the table and the writer alone. What is shown depends on the tasks that are
written, and these are the same. -/
theorem InfoInv.of_same (h : InfoInv page config id first s)
    (hinfo : s'.db.infoOf id = s.db.infoOf id) (hwritten : s'.written = s.written)
    (hwriter : ∀ t statements,
      s'.writer = .writing t statements ↔ s.writer = .writing t statements) :
    InfoInv page config id first s' := by
  have hrows : infoRows page config id first s' = infoRows page config id first s := by
    by_cases hw : ∃ t statements, s.writer = .writing t statements
    · obtain ⟨t, statements, hpc⟩ := hw
      simp only [infoRows, hpc, (hwriter t statements).mpr hpc, hwritten]
    · have hnot : ∀ t statements, s.writer ≠ .writing t statements :=
        fun t statements hpc => hw ⟨t, statements, hpc⟩
      rw [infoRows_of_not_writing hnot,
        infoRows_of_not_writing fun t statements hpc => hnot t statements ((hwriter _ _).mp hpc),
        hwritten]
  refine ⟨hinfo.trans (h.rows.trans hrows.symm), ?_, ?_⟩
  · intro t statements hpc
    rw [hwritten]
    exact h.last t statements ((hwriter t statements).mp hpc)
  · intro t statements hpc
    exact h.suffix t statements ((hwriter t statements).mp hpc)

/-- `updateSolution`: the task counts as written, and its statements are to come. Until the delete
is made, the table still shows the task before it. -/
theorem InfoInv.update (h : InfoInv page config id first s) {t : TaskObj} {ok : Bool}
    (hpc : s.writer = .holding t) :
    InfoInv page config id first { s with
      db := if ok then s.db.updateSolution t.task else s.db
      writer := .writing t (WriteStatement.ofTask config t.task)
      written := s.written ++ [t] } := by
  have hrows := h.rows
  rw [infoRows_of_not_writing fun t statements hw => WriterPc.noConfusion (hpc.symm.trans hw)]
    at hrows
  refine ⟨?_, ?_, ?_⟩
  -- `updateSolution` touches the solution table only
  · have hdb : (if ok then s.db.updateSolution t.task else s.db).infoOf id = s.db.infoOf id := by
      cases ok <;> rfl
    rw [hdb, hrows]
    -- the task of this row: its statements are all still to come
    by_cases hid : t.task.solutionID = id
    · have hmem : WriteStatement.deleteCompile ∈ WriteStatement.ofTask config t.task :=
        List.mem_append_left _ (by decide)
      simp only [infoRows, if_pos hid, if_pos hmem, List.dropLast_concat]
    -- another task leaves the row as it was
    · rw [infoRows_of_ne rfl hid, shown_append, if_neg hid]
  · rintro u statements ⟨⟩
    exact ⟨s.written, rfl⟩
  · rintro u statements ⟨⟩
    exact List.suffix_refl _

/-- The table after a statement. What is left of the statements says where the writer stands: in
front of the delete the old row is there, between delete and insert there is none, and then the new
one. -/
theorem infoOf_query (h : InfoInv page config id first s) {t : TaskObj} {statement : WriteStatement}
    {statements : List WriteStatement} (hpc : s.writer = .writing t (statement :: statements))
    {ok : Bool} (hpage : s.db.server.page = page)
    (hok : infoSucceeds s (.writerQuery ok) = true) :
    (if ok then statement.exec config t.task s.db else s.db).infoOf id =
      if t.task.solutionID = id then
        if .deleteCompile ∈ statements then shown page config id first s.written.dropLast
        else if .insertCompile ∈ statements then []
        else shown page config id first s.written
      else shown page config id first s.written := by
  obtain ⟨done, hdone⟩ := h.last _ _ hpc
  have hrows := h.rows
  simp only [infoRows, hpc] at hrows
  rcases of_suffix_ofTask (h.suffix _ _ hpc) with ⟨hdelete, hinsert, hmem⟩ | ⟨rfl, rfl⟩ |
    ⟨rfl, rfl, hresult⟩
  · -- a counted column: the table stays
    have hsame : (if ok then statement.exec config t.task s.db else s.db).infoOf id =
        s.db.infoOf id := by
      cases ok with
      | true => exact infoOf_exec_of_ne hdelete hinsert
      | false => rfl
    rw [hsame, hrows]
    simp only [hmem, List.mem_cons, or_true, if_true]
  · -- the delete
    obtain rfl : ok = true := by simpa only [infoSucceeds, hpc] using hok
    rw [if_pos rfl]
    show (s.db.deleteCompile t.task).infoOf id = _
    rw [infoOf_deleteCompile]
    by_cases hid : t.task.solutionID = id
    · rw [if_pos hid, if_pos hid, hdone, shown_append, if_pos hid]
      unfold infoAfter
      by_cases hresult : t.task.result = config.JE_COMPLIE
      · simp [if_pos hresult]
      · simp [if_neg hresult]
    · rw [if_neg hid, if_neg hid, hrows, if_neg hid]
  · -- the insert
    obtain rfl : ok = true := by simpa only [infoSucceeds, hpc] using hok
    rw [if_pos rfl]
    show (s.db.insertCompile t.task).infoOf id = _
    rw [infoOf_insertCompile, hrows, hpage]
    by_cases hid : t.task.solutionID = id
    · rw [hdone, shown_append, infoAfter, if_pos hresult]
      simp [hid]
    · simp only [if_neg hid, List.append_nil]

/-- A statement of `doWrite`, after which the writer stands in front of the next one, or in front of
the test of `m_running` behind the last. -/
theorem InfoInv.query (h : InfoInv page config id first s) {t : TaskObj}
    {statement : WriteStatement} {statements : List WriteStatement}
    (hpc : s.writer = .writing t (statement :: statements))
    {ok : Bool} (hpage : s.db.server.page = page)
    (hok : infoSucceeds s (.writerQuery ok) = true) :
    InfoInv page config id first { s with
      db := if ok then statement.exec config t.task s.db else s.db
      writer := if statements = [] then .check else .writing t statements } := by
  have hinfo := infoOf_query h hpc hpage hok
  have hsuffix : statements <:+ WriteStatement.ofTask config t.task :=
    (List.suffix_cons _ _).trans (h.suffix _ _ hpc)
  cases statements with
  | nil =>
    refine ⟨?_, fun _ _ hw => WriterPc.noConfusion hw, fun _ _ hw => WriterPc.noConfusion hw⟩
    rw [hinfo]
    simp [infoRows]
  | cons next statements =>
    refine ⟨hinfo, ?_, ?_⟩
    · rintro u rest ⟨⟩
      exact h.last _ _ hpc
    · rintro u rest ⟨⟩
      exact hsuffix

/-- Each step keeps what is known of the table. Only the writer's steps change it; that the two
statements about `compileinfo` succeed is what `infoSucceeds` asks for. -/
theorem infoInv_step (h : InfoInv page config id first s) (hpage : s.db.server.page = page)
    (a : Action) (ha : infoSucceeds s a = true) (hstep : step config s a = some s') :
    InfoInv page config id first s' := by
  cases db_step a hstep with
  -- the tables that matter here are untouched
  | same hdb hwritten hwriter => exact h.of_same (by rw [hdb]) hwritten hwriter
  | submit hnew hresult hs' =>
    subst hs'
    exact h.of_same rfl rfl fun _ _ => Iff.rfl
  | rejudge hs' =>
    subst hs'
    exact h.of_same rfl rfl fun _ _ => Iff.rfl
  -- `JE_COMPILING` is a column of the solution table
  | compiling hpc hdb hwritten hwriter =>
    refine h.of_same (by rw [hdb]; rfl) hwritten ?_
    intro t statements
    rw [hwriter]
  | update hpc hs' =>
    subst hs'
    exact h.update hpc
  | query hpc hs' =>
    subst hs'
    exact h.query hpc hpage ha

end State

end OnlineJudger
