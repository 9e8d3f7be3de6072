import OnlineJudger.Proofs.Judger.Origins

/-!
# `OnlineJudger.Proofs.Judger.Requests`: requests to judge a solution again

The front end stores `JE_REJUDGE` at any moment, and nothing tells the judge whether a task of
the solution is on its way. So the reader can select the solution again while an earlier task is
being judged.

* `written_not_selected_again`: a solution whose verdict is written is not selected again before
  the next request.
* `cores_exclusive`: two cores never hold tasks of one solution, when the reader selects no
  solution of which a task is still carried.
-/

set_option autoImplicit false

namespace OnlineJudger.State

open Lib

variable {config : Config} {s s' : State} {id : Int}

/-! ### Results that the query does not select -/

/-- The solution is stored with a result that the query does not select. From such a state only a
request leads back. -/
def Settled (config : Config) (id : Int) (s : State) : Prop :=
  ∃ result, s.db.resultOf id = some result ∧ config.selectable result = false

/-- A result stays settled until the next request for the solution. The judge itself stores
`JE_COMPILING` and verdicts only. -/
theorem settled_step (hverdicts : ∀ v ∈ config.verdicts, config.selectable v = false)
    (hcompiling : config.selectable config.JE_COMPILING = false) (hs : Reachable config s)
    (h : Settled config id s) (a : Action) (ha : a ≠ .rejudge id)
    (hstep : step config s a = some s') : Settled config id s' := by
  obtain ⟨result, hresult, hsettled⟩ := h
  cases db_step a hstep with
  | same hdb => exact ⟨result, by rw [hdb]; exact hresult, hsettled⟩
  | submit hnew _ hs' =>
    rw [hs']
    exact ⟨result, s.db.resultOf_submit hnew hresult, hsettled⟩
  | @rejudge id' hs' =>
    have hne : id ≠ id' := fun heq => ha (heq ▸ rfl)
    rw [hs']
    exact ⟨result, s.db.resultOf_rejudge_of_ne config hne hresult, hsettled⟩
  | @compiling _ row _ _ hdb =>
    by_cases hid : id = row.solutionID
    · subst hid
      rw [Settled, hdb]
      exact ⟨_, s.db.resultOf_updateSolutionCompiling_self config hresult, hcompiling⟩
    · rw [Settled, hdb]
      exact ⟨result, s.db.resultOf_updateSolutionCompiling_of_ne config hid hresult, hsettled⟩
  | @update t ok hpc hs' =>
    rw [hs']
    cases ok with
    | false => exact ⟨result, hresult, hsettled⟩
    | true =>
      by_cases hid : id = t.solutionID
      · -- the writer stores a verdict
        subst hid
        have hverdict := ((origins_of_reachable hs).reported t (held_mem_reported hs hpc)).2
        exact ⟨_, s.db.resultOf_updateSolution_self hresult, hverdicts _ hverdict⟩
      · exact ⟨result, s.db.resultOf_updateSolution_of_ne hid hresult, hsettled⟩
  | @query t statement statements ok _ hs' =>
    rw [hs']
    cases ok with
    | true => exact ⟨result, (exec_resultOf ..).trans hresult, hsettled⟩
    | false => exact ⟨result, hresult, hsettled⟩

/-- The query does not select a settled solution. -/
theorem Settled.notMem_selected (h : Settled config id s) {rows : List SelectedRow}
    (hrows : s.db.IsSelection config rows) : id ∉ (ReaderPc.rows rows).selected := by
  intro hmem
  obtain ⟨result, hresult, hsettled⟩ := h
  obtain ⟨result', hresult', hselectable⟩ := resultOf_of_mem_selected hrows hmem
  rw [hresult, Option.some.injEq] at hresult'
  rw [← hresult', hsettled] at hselectable
  exact Bool.noConfusion hselectable

/-- The verdict codes are not the codes of an open submission. -/
theorem selectable_of_mem_verdicts (hcodes : ∀ v ∈ config.verdicts, v ∉ config.openCodes) (v : Int)
    (hv : v ∈ config.verdicts) : config.selectable v = false := by
  have hopen := hcodes v hv
  simp only [Config.openCodes, List.mem_cons, List.not_mem_nil, or_false, not_or] at hopen
  simp only [Config.selectable, beq_eq_false_iff_ne.mpr hopen.1,
    beq_eq_false_iff_ne.mpr hopen.2.1, Bool.or_self]

/-- The solution is settled once its verdict is written. -/
theorem settled_of_update (hverdicts : ∀ v ∈ config.verdicts, config.selectable v = false)
    (hs : Reachable config s) {t : TaskObj} (hpc : s.writer = .holding t)
    (hstep : step config s (.writerUpdate true) = some s') : Settled config t.solutionID s' := by
  obtain ⟨u, hpc', rfl⟩ := of_writerUpdate hstep
  rw [hpc, WriterPc.holding.injEq] at hpc'
  subst hpc'
  obtain ⟨hidentity, hverdict⟩ :=
    (origins_of_reachable hs).reported t (held_mem_reported hs hpc)
  obtain ⟨old, hold⟩ := s.db.exists_resultOf_task hidentity
  exact ⟨_, s.db.resultOf_updateSolution_self hold, hverdicts _ hverdict⟩

/-- Every judge run reports a verdict that it has set itself. When the codes of the verdicts are
not those of an open submission, and `JE_COMPILING` is not a code that the query selects, a
solution whose verdict is written is not selected again before the next request. -/
theorem written_not_selected_again :
    (∀ (config : Config) (env : JudgeEnv) (task : TaskBase),
      ∃ reported : TaskBase, reported.result ∈ config.verdicts ∧
        ∀ (before : Int) (σ : Type) (id : ℕ) (cb : ℕ → TaskBase → σ → σ) (st : σ),
          (JudgeCore.judge config env id (some cb) (task.setResult before) st).2 =
            cb id reported st) ∧
    ∀ (config : Config), (∀ v ∈ config.verdicts, v ∉ config.openCodes) →
      config.selectable config.JE_COMPILING = false →
      ∀ (s written s' : State) (t : TaskObj) (actions : List Action), Reachable config s →
        s.writer = .holding t → step config s (.writerUpdate true) = some written →
        run (step config) written actions = some s' → .rejudge t.solutionID ∉ actions →
        ∀ rows, s'.db.IsSelection config rows →
          t.solutionID ∉ rows.map SelectedRow.solutionID := by
  constructor
  -- any verdict that the judge can give is one of the codes
  · intro config env task
    refine ⟨_, JudgeCore.doJudge_mem_verdicts config env task, ?_⟩
    intro before σ id cb st
    rw [JudgeCore.judge, JudgeCore.doJudge_setResult]
    rfl
  -- the row is settled when the update has run, and no step but a request makes it open again
  · intro config hcodes hcompiling s written s' t actions hs hpc hwrite hrun hrequest rows hrows
    have hverdicts := selectable_of_mem_verdicts hcodes
    have hothers : ∀ a ∈ actions, a ≠ .rejudge t.solutionID := by
      rintro a ha rfl
      exact hrequest ha
    -- reachable and settled is kept by every other action
    have hkeeps : ∀ s a s', a ≠ .rejudge t.solutionID →
        Reachable config s ∧ Settled config t.solutionID s → step config s a = some s' →
        Reachable config s' ∧ Settled config t.solutionID s' := by
      rintro s a s' ha ⟨hs, h⟩ hstep
      exact ⟨hs.step hstep, settled_step hverdicts hcompiling hs h a ha hstep⟩
    have hinv := run_invariant hkeeps hothers
      ⟨hs.step hwrite, settled_of_update hverdicts hs hpc hwrite⟩ hrun
    exact fun hmem => hinv.2.notMem_selected hrows (Multiset.mem_coe.mpr hmem)

/-- A run that writes a solution, cut at the moment of the write. -/
theorem exists_write {db : Database} {cores : ℕ} {before after : List Action}
    (hrun : run (step config) (start db cores) (before ++ .writerUpdate true :: after) = some s')
    (hheld : (run (step config) (start db cores) before).map
      (fun s => s.writer.held.map TaskObj.solutionID) = some (some id)) :
    ∃ s written t, Reachable config s ∧ s.writer = .holding t ∧ t.solutionID = id ∧
      step config s (.writerUpdate true) = some written ∧
      run (step config) written after = some s' := by
  obtain ⟨s, hfetched, hrest⟩ := run_append_eq_some.mp hrun
  obtain ⟨written, hwrite, hrest⟩ := run_cons_eq_some.mp hrest
  rw [hfetched, Option.map_some, Option.some.injEq] at hheld
  obtain ⟨t, ht, hid⟩ := Option.map_eq_some_iff.mp hheld
  obtain ⟨u, hpc, -⟩ := of_writerUpdate hwrite
  rw [hpc, WriterPc.held, Option.some.injEq] at ht
  exact ⟨s, written, t, ⟨db, cores, before, hfetched⟩, ht ▸ hpc, hid, hwrite, hrest⟩

/-- The run of `dispatch` up to the moment when the writer holds the task. -/
def judgeAndFetch : List Action :=
  [.coreGet 0, .coreFinish 0 rejectedProgram, .coreCleanUp 0, .writerCheck, .writerGet]

/-- The codes of the constructor: the written solution is not selected by the next query. -/
theorem written_not_selected_again_default :
    ∃ s, run (step {}) (start oneSubmission 1)
        (dispatch ++ judgeAndFetch ++ [.writerUpdate true, .readerRowsEnd, .readerCheck]) = some s ∧
      s.reader = .querying ∧
      ∀ rows, s.db.IsSelection {} rows → 1000 ∉ rows.map SelectedRow.solutionID := by
  have hheld : (run (step {}) (start oneSubmission 1) (dispatch ++ judgeAndFetch)).map
      (fun s => s.writer.held.map TaskObj.solutionID) = some (some 1000) := by decide
  have hend : (run (step {}) (start oneSubmission 1)
      (dispatch ++ judgeAndFetch ++ [.writerUpdate true, .readerRowsEnd, .readerCheck])).map
      State.reader = some .querying := by decide
  obtain ⟨s', hrun, hpc⟩ := Option.map_eq_some_iff.mp hend
  obtain ⟨s, written, t, hs, hholding, hid, hwrite, hrest⟩ := exists_write hrun hheld
  refine ⟨s', hrun, hpc, ?_⟩
  intro rows hrows
  rw [← hid]
  exact written_not_selected_again.2 {} (by decide) (by decide) s written s' t _ hs hholding
    hwrite hrest (by simp) rows hrows

/-- `JE_COMPILING` is the code of a pending submission. The reader selects the solution a second
time while the first task is judged, and stores that code behind the verdict of the first task. -/
theorem written_selected_again :
    ¬ ∀ (config : Config), (∀ v ∈ config.verdicts, v ∉ config.openCodes) →
      ∀ (s written s' : State) (t : TaskObj) (actions : List Action), Reachable config s →
        s.writer = .holding t → step config s (.writerUpdate true) = some written →
        run (step config) written actions = some s' → .rejudge t.solutionID ∉ actions →
        ∀ rows, s'.db.IsSelection config rows →
          t.solutionID ∉ rows.map SelectedRow.solutionID := by
  intro hall
  let config : Config := { JE_COMPILING := 0 }
  let before := dispatch ++ [.readerRowsEnd, .readerCheck, .readerSelect (.rows [pendingRow])] ++
    judgeAndFetch
  let after : List Action := [.readerRow [] true]
  have hheld : (run (step config) (start oneSubmission 1) before).map
      (fun s => s.writer.held.map TaskObj.solutionID) = some (some 1000) := by decide
  have hend : (run (step config) (start oneSubmission 1)
      (before ++ .writerUpdate true :: after)).map
      (fun s => decide (s.db.IsSelection config [pendingRow])) = some true := by decide
  obtain ⟨s', hrun, hselected⟩ := Option.map_eq_some_iff.mp hend
  obtain ⟨s, written, t, hs, hholding, hid, hwrite, hrest⟩ := exists_write hrun hheld
  have hnot := hall config (by decide) s written s' t after hs hholding hwrite hrest
    (by simp [after]) [pendingRow] (of_decide_eq_true hselected)
  exact hnot (hid ▸ List.mem_singleton_self _)

/-! ### Cores with tasks of one solution -/

/-- The solutions of the carried tasks. -/
def carriedSolutions (s : State) : Multiset Int := s.carried.map TaskObj.solutionID

/-- What keeps the cores apart: a solution is carried or selected at most once. Two cores with tasks
of one solution would carry it twice. -/
def Exclusive (s : State) : Prop :=
  ∀ id, (s.carriedSolutions + s.reader.selected).count id ≤ 1

/-- The reader selects no solution with a carried task. This is the condition on the answers of the
query. -/
def SelectsIdle (s : State) : Action → Prop
  | .readerSelect (.rows rows) => ∀ row ∈ rows, row.solutionID ∉ s.carriedSolutions
  | _ => True

/-- The solution of a request is one of those meant. -/
def RejudgesOnly (meant : Int → Prop) : Action → Prop
  | .rejudge id => meant id
  | _ => True

/-- A request comes while no task of its solution is carried. This is the condition on the front
end, from which the one on the query follows. -/
def RejudgesIdle (s : State) : Action → Prop :=
  RejudgesOnly (· ∉ s.carriedSolutions)

/-- The rows of a selection are listed, and so are the carried tasks. -/
instance (s : State) (a : Action) : Decidable (s.SelectsIdle a) := by
  unfold SelectsIdle
  split <;> infer_instance

/-- If it can be decided which solutions are meant, a run can be checked. -/
instance (meant : Int → Prop) [DecidablePred meant] (a : Action) :
    Decidable (RejudgesOnly meant a) := by
  unfold RejudgesOnly
  split <;> infer_instance

/-- A request names one solution. -/
instance (s : State) (a : Action) : Decidable (s.RejudgesIdle a) :=
  inferInstanceAs (Decidable (RejudgesOnly (· ∉ s.carriedSolutions) a))

/-- Each step keeps the cores apart. The only step that could bring a second task of a solution is a
selection. -/
theorem exclusive_step (h : Exclusive s) (a : Action) (ha : s.SelectsIdle a)
    (hstep : step config s a = some s') : Exclusive s' := by
  intro id
  rcases carried_step a hstep with hle | ⟨testData, row, rows, hpc, hcarried, hpc', -⟩
  · have hle : s'.carriedSolutions ≤ s.carriedSolutions := Multiset.map_le_map hle
    rcases rowsLeft_step a hstep with hsub | ⟨rows, rfl, hpc, hrows⟩
    · refine (Multiset.count_le_of_le id (add_le_add hle ?_)).trans (h id)
      rw [ReaderPc.selected_eq, ReaderPc.selected_eq]
      exact Multiset.coe_le.mpr (hsub.map _).subperm
    · rw [hpc, Multiset.count_add]
      by_cases hid : id ∈ (ReaderPc.rows rows).selected
      · have hnot : id ∉ s'.carriedSolutions := by
          obtain ⟨row, hrow, rfl⟩ := List.mem_map.mp (Multiset.mem_coe.mp hid)
          exact fun hmem => ha row hrow (Multiset.mem_of_le hle hmem)
        rw [Multiset.count_eq_zero_of_notMem hnot, Nat.zero_add]
        exact Multiset.nodup_iff_count_le_one.mp (selected_nodup hrows) id
      · rw [Multiset.count_eq_zero_of_notMem hid, Nat.add_zero]
        refine (Multiset.count_le_of_le id hle).trans ?_
        exact (Multiset.count_le_of_le id (Multiset.le_add_right _ _)).trans (h id)
  · -- the row leaves the selection, and its task is carried
    have hcarried : s'.carriedSolutions = {row.solutionID} + s.carriedSolutions := by
      rw [carriedSolutions, hcarried, Multiset.map_add, Multiset.map_singleton,
        newTask_solutionID]
      rfl
    have honce := h id
    rw [hpc, ReaderPc.selected, List.map_cons, ← Multiset.cons_coe, ← Multiset.singleton_add,
      add_left_comm, ← add_assoc] at honce
    rw [hcarried, hpc', ReaderPc.selected]
    exact honce

/-- Two cores between `getTask` and the end of `judge` hold tasks of different solutions. So their
files are different, too. -/
def CoresApart (s : State) : Prop :=
  ∀ (i j : ℕ) (c d : CorePc) (t u : TaskObj), i ≠ j → s.cores[i]? = some c →
    c.task = some t → s.cores[j]? = some d → d.task = some u → t.solutionID ≠ u.solutionID

/-- Two cores with tasks of one solution would carry it twice. The tasks of the cores are among
those in flight, so the second one would be counted there as well. -/
theorem Exclusive.coresApart (h : Exclusive s) : CoresApart s := by
  intro i j c d t u hij hi ht hj hu heq
  -- without core `i`, the task of core `j` is still there
  have hset := coe_filterMap_set CorePc.task hi .exited
  have hnone : CorePc.exited.task = none := rfl
  rw [ht, hnone, Option.toList_some, Option.toList_none, Multiset.coe_nil, add_zero] at hset
  have hj' : (s.cores.set i .exited)[j]? = some d := by
    rw [List.getElem?_set_ne hij]
    exact hj
  have hmem : u ∈ (s.cores.set i .exited).filterMap CorePc.task :=
    List.mem_filterMap.mpr ⟨d, List.mem_of_getElem? hj', hu⟩
  have hle : {u.solutionID} + {t.solutionID} ≤ s.carriedSolutions + s.reader.selected := by
    refine le_trans ?_ (Multiset.le_add_right _ _)
    rw [← Multiset.map_singleton, ← Multiset.map_singleton TaskObj.solutionID, ← Multiset.map_add]
    refine Multiset.map_le_map ?_
    refine le_trans ?_ (Multiset.le_add_left _ _)
    rw [← hset]
    exact add_le_add_left (Multiset.singleton_le.mpr (Multiset.mem_coe.mpr hmem)) _
  have hcount := (Multiset.count_le_of_le u.solutionID hle).trans (h u.solutionID)
  rw [heq, Multiset.count_add, Multiset.count_singleton_self] at hcount
  omega

/-- At the start nothing is carried. -/
theorem exclusive_start (db : Database) (cores : ℕ) : Exclusive (start db cores) := by
  intro id
  rw [carriedSolutions, carried_start]
  exact Nat.zero_le 1

/-- A task is made of a settled solution, and its solution stays settled while it is carried,
when no request comes in that time. -/
theorem carried_settled_step (hverdicts : ∀ v ∈ config.verdicts, config.selectable v = false)
    (hcompiling : config.selectable config.JE_COMPILING = false) (hs : Reachable config s)
    (h : ∀ id ∈ s.carriedSolutions, Settled config id s) (a : Action) (ha : s.RejudgesIdle a)
    (hstep : step config s a = some s') :
    ∀ id ∈ s'.carriedSolutions, Settled config id s' := by
  -- a task that was carried before stays settled, since no request names it
  have hkeep : ∀ id ∈ s.carriedSolutions, Settled config id s' := by
    intro id hid
    refine settled_step hverdicts hcompiling hs (h id hid) a ?_ hstep
    rintro rfl
    exact ha hid
  intro id hid
  -- a new task is carried with the row of the reader
  rcases carried_step a hstep with hle | ⟨testData, row, rows, hpc, hcarried, -, hdb⟩
  · exact hkeep id (Multiset.mem_of_le (Multiset.map_le_map hle) hid)
  · rw [carriedSolutions, hcarried, Multiset.map_add, Multiset.map_singleton, newTask_solutionID,
      Multiset.mem_add, Multiset.mem_singleton] at hid
    rcases hid with rfl | hid
    -- its row has just been set to `JE_COMPILING`
    · have hrow := (origins_of_reachable hs).rows row (by rw [hpc]; exact List.mem_cons_self ..)
      obtain ⟨old, hold⟩ := s.db.exists_resultOf hrow
      rw [Settled, hdb]
      exact ⟨_, s.db.resultOf_updateSolutionCompiling_self config hold, hcompiling⟩
    · exact hkeep id hid

/-- When each request comes while no task of its solution is carried, the reader selects no
solution with a carried task. -/
theorem selectsIdle_of_rejudgesIdle
    (hverdicts : ∀ v ∈ config.verdicts, config.selectable v = false)
    (hcompiling : config.selectable config.JE_COMPILING = false) {db : Database} {cores : ℕ}
    {actions : List Action} (hrun : run (step config) (start db cores) actions = some s)
    (hrejudge : Along (step config) RejudgesIdle (start db cores) actions) :
    Along (step config) SelectsIdle (start db cores) actions := by
  let Inv : State → Prop := fun s =>
    Reachable config s ∧ ∀ id ∈ s.carriedSolutions, Settled config id s
  have hstart : Inv (start db cores) := by
    refine ⟨⟨db, cores, [], rfl⟩, ?_⟩
    intro id hid
    rw [carriedSolutions, carried_start] at hid
    exact absurd hid (Multiset.notMem_zero id)
  have hstep : ∀ s a s', s.RejudgesIdle a → Inv s → step config s a = some s' →
      Inv s' ∧ s.SelectsIdle a := by
    rintro s a s' ha ⟨hs, h⟩ hstep
    refine ⟨⟨hs.step hstep, carried_settled_step hverdicts hcompiling hs h a ha hstep⟩, ?_⟩
    unfold SelectsIdle
    split
    · next rows =>
      -- a settled solution is not selected
      intro row hrow hcarried
      refine (h _ hcarried).notMem_selected (isSelection_of_readerSelect hstep) ?_
      exact Multiset.mem_coe.mpr (List.mem_map_of_mem hrow)
    · trivial
  exact hrejudge.imp hstep hstart hrun

/-- Two cores never hold tasks of one solution, in any run in which the reader selects no
solution with a carried task. With codes that keep the verdicts and `JE_COMPILING` out of the
query, that is so in any run in which each request comes while no task of its solution is
carried. -/
theorem cores_exclusive (config : Config) (db : Database) (cores : ℕ) (actions : List Action)
    (s : State) (hrun : run (step config) (start db cores) actions = some s) :
    (Along (step config) SelectsIdle (start db cores) actions → CoresApart s) ∧
      ((∀ v ∈ config.verdicts, config.selectable v = false) →
        config.selectable config.JE_COMPILING = false →
        Along (step config) RejudgesIdle (start db cores) actions →
        Along (step config) SelectsIdle (start db cores) actions) := by
  constructor
  · intro hselects
    refine Exclusive.coresApart ?_
    refine run_invariant_along ?_ hselects (exclusive_start db cores) hrun
    intro s a s' ha h hstep
    exact exclusive_step h a ha hstep
  · intro hverdicts hcompiling hrejudges
    exact selectsIdle_of_rejudgesIdle hverdicts hcompiling hrun hrejudges

/-- The request comes when the verdict of the first task is written. Both tasks of the solution are
taken in this run, one after the other. -/
theorem cores_exclusive_after_write :
    ∃ s, run (step {}) (start oneSubmission 2)
        (dispatch ++ judgeAndFetch ++ [.writerUpdate true, .rejudge 1000, .readerRowsEnd,
          .readerCheck, .readerSelect (.rows [{ pendingRow with result := 1 }]),
          .readerRow [] true, .readerAdd, .coreGet 1]) = some s ∧
      s.taken.map TaskObj.solutionID = [1000, 1000] ∧ CoresApart s := by
  let actions := dispatch ++ judgeAndFetch ++ [.writerUpdate true, .rejudge 1000, .readerRowsEnd,
    .readerCheck, .readerSelect (.rows [{ pendingRow with result := 1 }]), .readerRow [] true,
    .readerAdd, .coreGet 1]
  have hend : (run (step {}) (start oneSubmission 2) actions).map
      (fun s => s.taken.map TaskObj.solutionID) = some [1000, 1000] := by decide
  obtain ⟨s, hrun, htaken⟩ := Option.map_eq_some_iff.mp hend
  obtain ⟨hapart, hselects⟩ := cores_exclusive {} oneSubmission 2 actions s hrun
  exact ⟨s, hrun, htaken, hapart (hselects (by decide) (by decide) (by decide))⟩

/-- The request comes while the first core judges. The reader selects the solution again, and the
second core takes its task. -/
theorem cores_share_solution :
    ¬ ∀ (config : Config) (db : Database) (cores : ℕ) (actions : List Action) (s : State),
      run (step config) (start db cores) actions = some s → CoresApart s := by
  intro hall
  -- the second request comes while a core judges the first task
  let actions := dispatch ++ [.coreGet 0, .rejudge 1000, .readerRowsEnd, .readerCheck,
    .readerSelect (.rows [{ pendingRow with result := 1 }]), .readerRow [] true, .readerAdd,
    .coreGet 1]
  -- at the end both cores hold the same submission
  have hend : (run (step {}) (start oneSubmission 2) actions).map
      (fun s => ((s.cores[0]?.bind CorePc.task).map TaskObj.solutionID,
        (s.cores[1]?.bind CorePc.task).map TaskObj.solutionID)) =
        some (some 1000, some 1000) := by decide
  obtain ⟨s, hrun, hcores⟩ := Option.map_eq_some_iff.mp hend
  rw [Prod.mk.injEq] at hcores
  obtain ⟨t, ht, hid⟩ := Option.map_eq_some_iff.mp hcores.1
  obtain ⟨u, hu, hid'⟩ := Option.map_eq_some_iff.mp hcores.2
  obtain ⟨c, hc, ht⟩ := Option.bind_eq_some_iff.mp ht
  obtain ⟨d, hd, hu⟩ := Option.bind_eq_some_iff.mp hu
  exact hall {} oneSubmission 2 actions s hrun 0 1 c d t u (by decide) hc ht hd hu
    (hid.trans hid'.symm)

end OnlineJudger.State
