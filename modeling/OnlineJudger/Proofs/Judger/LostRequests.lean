import OnlineJudger.Proofs.Judger.Requests

/-!
# `OnlineJudger.Proofs.Judger.LostRequests`: requests that a verdict overwrites

`updateSolution` stores the verdict of a task whatever the stored result is. A request that came
after the task was added is overwritten with it.

`dispatched` are the tasks between `addTask` and `updateSolution`. `requests_kept` says that a
final verdict comes from a task that was added behind the last request, in every run in which
each request comes while no task of its solution is dispatched.
-/

set_option autoImplicit false

namespace OnlineJudger

open Lib

/-- The object and its solution, which no step changes. -/
def TaskObj.key (t : TaskObj) : ℕ × Int := (t.addr, t.solutionID)

/-- The task in `judge`, up to the finish callback. -/
def CorePc.judgingTask : CorePc → Option TaskObj
  | .judging task => some task
  | _ => none

/-- A judge run keeps both. -/
theorem judged_key (config : Config) (env : JudgeEnv) (t : TaskObj) :
    (State.judged config env t).key = t.key :=
  congrArg (Prod.mk t.addr) (judged_solutionID config env t)

/-- No statement of the action fails. -/
def Action.succeeds : Action → Bool
  | .readerSelect .failed => false
  | .readerRow _ ok => ok
  | .writerUpdate ok => ok
  | .writerQuery ok => ok
  | _ => true

namespace State

variable {config : Config} {s s' : State}

/-! ### The tasks between `addTask` and `updateSolution` -/

/-- The keys of some tasks. -/
def keys (tasks : List TaskObj) : Multiset (ℕ × Int) := (tasks : Multiset TaskObj).map TaskObj.key

/-- No task, no key. -/
@[simp] theorem keys_nil : keys [] = 0 := rfl

/-- One task in front of the others. -/
theorem keys_cons (t : TaskObj) (l : List TaskObj) : keys (t :: l) = {t.key} + keys l := by
  rw [keys, ← Multiset.cons_coe, Multiset.map_cons, Multiset.singleton_add]
  rfl

/-- Two lists of tasks. -/
@[simp] theorem keys_append (l l' : List TaskObj) : keys (l ++ l') = keys l + keys l' := by
  rw [keys, ← Multiset.coe_add, Multiset.map_add]
  rfl

/-- The tasks that are added and not yet written. A request for one of their solutions can be
overwritten by the verdict that is on its way. -/
def dispatched (s : State) : Multiset (ℕ × Int) :=
  keys (realTasks s.tasks) + keys (s.cores.filterMap CorePc.judgingTask) +
    keys (realTasks s.finishTask) + keys s.writer.held.toList

/-- The judged tasks when one core changes. -/
theorem keys_judging_set {i : ℕ} {c : CorePc} (hc : s.cores[i]? = some c) (c' : CorePc) :
    keys ((s.cores.set i c').filterMap CorePc.judgingTask) + keys c.judgingTask.toList =
      keys (s.cores.filterMap CorePc.judgingTask) + keys c'.judgingTask.toList := by
  simp only [keys, ← Multiset.map_add]
  exact congrArg (Multiset.map TaskObj.key) (coe_filterMap_set CorePc.judgingTask hc c')

/-- A core changes that judges no task before and after. -/
theorem dispatched_core {i : ℕ} {c c' : CorePc} (hc : s.cores[i]? = some c)
    (h : c.judgingTask = none) (h' : c'.judgingTask = none) {tasks : TaskMgr (Option TaskObj)}
    (htasks : realTasks tasks = realTasks s.tasks) :
    ({ s with cores := s.cores.set i c', tasks } : State).dispatched = s.dispatched := by
  have hset := keys_judging_set hc c'
  rw [h, h', Option.toList_none, keys_nil, add_zero, add_zero] at hset
  simp only [dispatched, hset, htasks]

/-- What a step does to the dispatched tasks. Only `addTask` brings a new one. A written task leaves
with `updateSolution`, and the other steps hand a task from one thread to the next. -/
theorem dispatched_step (a : Action) (hstep : step config s a = some s') :
    (s'.dispatched ≤ s.dispatched ∧ s'.added = s.added) ∨
      ∃ t, s'.dispatched = {t.key} + s.dispatched ∧ s'.added = s.added ++ [t] := by
  cases ha : a.party with
  | frontEnd =>
    obtain ⟨db, rfl⟩ := frontEnd_frame ha hstep
    exact .inl ⟨le_rfl, rfl⟩
  | reader =>
    cases a with
    | readerCheck =>
      obtain ⟨-, rfl⟩ := of_readerCheck hstep
      exact .inl ⟨le_rfl, rfl⟩
    | readerSelect answer =>
      obtain ⟨-, rfl | rfl | ⟨rows, -, -, rfl⟩⟩ := of_readerSelect hstep <;>
        exact .inl ⟨le_rfl, rfl⟩
    | readerRow testData ok =>
      obtain ⟨row, rows, -, ⟨-, rfl⟩ | ⟨-, rfl⟩⟩ := of_readerRow hstep <;>
        exact .inl ⟨le_rfl, rfl⟩
    | readerAdd =>
      obtain ⟨t, rows, -, rfl⟩ := of_readerAdd hstep
      refine .inr ⟨t, ?_, rfl⟩
      simp only [dispatched, realTasks_add, keys_append, keys_cons, keys_nil]
      abel
    | readerRowsEnd =>
      obtain ⟨-, rfl⟩ := of_readerRowsEnd hstep
      exact .inl ⟨le_rfl, rfl⟩
    | _ => cases ha
  | core =>
    cases a with
    | coreGet i =>
      obtain ⟨hpc, task?, tasks, hget, hs'⟩ := of_coreGet hstep
      cases task? with
      | none =>
        subst hs'
        exact .inl ⟨(dispatched_core hpc rfl rfl (realTasks_get_none hget)).le, rfl⟩
      | some t =>
        subst hs'
        have hset := keys_judging_set hpc (.judging t)
        simp only [CorePc.judgingTask, Option.toList_none, Option.toList_some, keys_nil, keys_cons,
          add_zero] at hset
        refine .inl ⟨le_of_eq ?_, rfl⟩
        simp only [dispatched, hset, realTasks_get_some hget, keys_cons]
        abel
    | coreFinish i env =>
      obtain ⟨t, hpc, rfl⟩ := of_coreFinish hstep
      have hset := keys_judging_set hpc (.cleaning t (JudgeCore.doCleanUp env))
      simp only [CorePc.judgingTask, Option.toList_none, Option.toList_some, keys_nil, keys_cons,
        add_zero] at hset
      refine .inl ⟨le_of_eq ?_, rfl⟩
      simp only [dispatched, ← hset, realTasks_add, keys_append, keys_cons, keys_nil, judged_key]
      abel
    | coreCleanUp i =>
      obtain ⟨t, ok, hpc, rfl⟩ := of_coreCleanUp hstep
      exact .inl ⟨(dispatched_core hpc rfl (by cases ok <;> rfl) rfl).le, rfl⟩
    | _ => cases ha
  | writer =>
    cases a with
    | writerCheck =>
      obtain ⟨hpc, rfl⟩ := of_writerCheck hstep
      refine .inl ⟨le_of_eq ?_, rfl⟩
      cases s.running <;> simp only [dispatched, hpc, WriterPc.held, if_true, Bool.false_eq_true,
        if_false]
    | writerGet =>
      obtain ⟨hpc, task?, finishTask, hget, hs'⟩ := of_writerGet hstep
      cases task? with
      | none =>
        subst hs'
        refine .inl ⟨le_of_eq ?_, rfl⟩
        simp only [dispatched, hpc, realTasks_get_none hget, WriterPc.held]
      | some t =>
        subst hs'
        refine .inl ⟨le_of_eq ?_, rfl⟩
        simp only [dispatched, hpc, realTasks_get_some hget, WriterPc.held, Option.toList_some,
          Option.toList_none, keys_cons, keys_nil]
        abel
    | writerUpdate ok =>
      obtain ⟨t, hpc, rfl⟩ := of_writerUpdate hstep
      -- the written task leaves
      exact .inl ⟨add_le_add_right (Multiset.zero_le _) _, rfl⟩
    | writerQuery ok =>
      obtain ⟨t, statement, statements, hpc, rfl⟩ := of_writerQuery hstep
      refine .inl ⟨le_of_eq ?_, rfl⟩
      by_cases hnil : statements = [] <;>
        simp only [dispatched, hpc, WriterPc.held, hnil, if_true, if_false]
    | _ => cases ha
  | main =>
    obtain ⟨main, running, tasks, finishTask, rfl, htasks, hfinish⟩ := main_frame ha hstep
    refine .inl ⟨le_of_eq ?_, rfl⟩
    simp only [dispatched, htasks, hfinish]

/-! ### Where a final verdict comes from -/

/-- The last task of the solution that `updateSolution` was called with. -/
def lastWrite (id : Int) (s : State) : Option TaskObj :=
  (s.written.filter fun t => t.solutionID = id).getLast?

/-- Nothing is written. -/
theorem lastWrite_of_eq {id : Int} (h : s'.written = s.written) :
    s'.lastWrite id = s.lastWrite id := by
  rw [lastWrite, lastWrite, h]

/-- A task is written: it is the last one of its solution. -/
theorem lastWrite_append_self {t : TaskObj} (h : s'.written = s.written ++ [t]) :
    s'.lastWrite t.solutionID = some t := by
  have hfilter : ([t].filter fun u => u.solutionID = t.solutionID) = [t] :=
    List.filter_cons_of_pos (decide_eq_true rfl)
  rw [lastWrite, h, List.filter_append, hfilter]
  exact List.getLast?_concat

/-- And it is not the last one of another solution. -/
theorem lastWrite_append_of_ne {t : TaskObj} {id : Int} (hne : id ≠ t.solutionID)
    (h : s'.written = s.written ++ [t]) : s'.lastWrite id = s.lastWrite id := by
  rw [lastWrite, h, List.filter_append, List.filter_cons_of_neg (by simpa using Ne.symm hne),
    List.filter_nil, List.append_nil]
  rfl

/-- The objects that are added behind the first `k` ones. -/
def addedAfter (k : ℕ) (s : State) : List ℕ := (s.added.drop k).map TaskObj.addr

/-- The verdict that is stored for the solution comes from a task that was added behind the first
`k` ones. With `k` tasks at the moment of a request, it is a verdict that has seen the request. -/
def FromLaterTask (config : Config) (id : Int) (k : ℕ) (s : State) : Prop :=
  ∀ result, s.db.resultOf id = some result → result ∉ config.openCodes →
    ∃ t, s.lastWrite id = some t ∧ t.task.result = result ∧ t.addr ∈ s.addedAfter k

/-- What holds of a solution behind a request: every task of it on its way is a later one, and so is
the one of the stored verdict. -/
structure Kept (config : Config) (id : Int) (k : ℕ) (s : State) : Prop where
  le : k ≤ s.added.length
  dispatched : ∀ key ∈ s.dispatched, key.2 = id → key.1 ∈ s.addedAfter k
  stored : FromLaterTask config id k s

variable {id : Int} {k : ℕ}

/-- A step may add a task behind the others. -/
theorem addedAfter_subset (a : Action) (hle : k ≤ s.added.length)
    (hstep : step config s a = some s') : s.addedAfter k ⊆ s'.addedAfter k := by
  rcases dispatched_step a hstep with ⟨-, hadded⟩ | ⟨t, -, hadded⟩
  · rw [addedAfter, addedAfter, hadded]
    exact List.Subset.refl _
  · rw [addedAfter, addedAfter, hadded, List.drop_append_of_le_length hle, List.map_append]
    exact List.subset_append_left _ _

/-- Nothing is stored for the solution but the code of an open submission. -/
theorem FromLaterTask.of_open (h : ∀ result, s.db.resultOf id = some result →
    result ∈ config.openCodes) : FromLaterTask config id k s :=
  fun result hresult hfinal => absurd (h result hresult) hfinal

/-- The stored result and the written tasks stay. -/
theorem FromLaterTask.of_eq (h : FromLaterTask config id k s)
    (hadded : s.addedAfter k ⊆ s'.addedAfter k) (hlast : s'.lastWrite id = s.lastWrite id)
    (hdb : ∀ result, s'.db.resultOf id = some result → s.db.resultOf id = some result) :
    FromLaterTask config id k s' := by
  intro result hresult hfinal
  obtain ⟨t, ht, heq, haddr⟩ := h result (hdb result hresult) hfinal
  exact ⟨t, hlast.trans ht, heq, hadded haddr⟩

/-- A request stores the code of an open submission. -/
theorem openCodes_of_rejudge {result : Int}
    (h : (s.db.rejudge config id).resultOf id = some result) : result ∈ config.openCodes := by
  rcases s.db.of_resultOf_rejudge config h with ⟨hne, -⟩ | ⟨-, rfl⟩
  · exact absurd rfl hne
  · exact List.mem_cons_of_mem _ (List.mem_cons_self ..)

/-- A verdict is stored by a dispatched task only. Behind the request those of the solution are
later ones, so its verdict comes from a later one as well. -/
theorem fromLaterTask_step (h : Kept config id k s) (a : Action) (ha : a.succeeds = true)
    (hstep : step config s a = some s') : FromLaterTask config id k s' := by
  have hadded := addedAfter_subset a h.le hstep
  cases db_step a hstep with
  | same hdb hwritten =>
    exact h.stored.of_eq hadded (lastWrite_of_eq hwritten) fun _ hresult => hdb ▸ hresult
  | @submit row hnew hpending hs' =>
    subst hs'
    intro result hresult hfinal
    rcases s.db.of_resultOf_submit hnew hresult with hresult | ⟨-, rfl⟩
    · exact h.stored result hresult hfinal
    · -- a new row is pending
      rw [hpending] at hfinal
      exact absurd (List.mem_cons_self ..) hfinal
  | @rejudge id' hs' =>
    subst hs'
    intro result hresult hfinal
    rcases s.db.of_resultOf_rejudge config hresult with ⟨-, hresult⟩ | ⟨rfl, -⟩
    · exact h.stored result hresult hfinal
    · exact absurd (openCodes_of_rejudge hresult) hfinal
  | @compiling _ row _ _ hdb hwritten =>
    intro result hresult hfinal
    rw [hdb] at hresult
    rcases s.db.of_resultOf_updateSolutionCompiling config hresult with ⟨-, hresult⟩ | ⟨-, rfl⟩
    · rw [lastWrite_of_eq hwritten]
      obtain ⟨t, ht, heq, haddr⟩ := h.stored result hresult hfinal
      exact ⟨t, ht, heq, hadded haddr⟩
    · exact absurd (List.mem_cons_of_mem _ (List.mem_cons_of_mem _ (List.mem_cons_self ..))) hfinal
  | @update t ok hpc hs' =>
    obtain rfl : ok = true := ha
    have hwritten : s'.written = s.written ++ [t] := by rw [hs']
    have hdb : s'.db = s.db.updateSolution t.task := by rw [hs']; rfl
    intro result hresult hfinal
    rw [hdb] at hresult
    rcases s.db.of_resultOf_updateSolution hresult with ⟨hne, hresult⟩ | ⟨rfl, rfl⟩
    · rw [lastWrite_append_of_ne hne hwritten]
      obtain ⟨t, ht, heq, haddr⟩ := h.stored result hresult hfinal
      exact ⟨t, ht, heq, hadded haddr⟩
    · -- the task was dispatched, so it was added behind the request
      refine ⟨t, lastWrite_append_self hwritten, rfl, hadded ?_⟩
      refine h.dispatched t.key ?_ rfl
      rw [dispatched, hpc]
      exact Multiset.mem_add.mpr (.inr (Multiset.mem_singleton_self _))
  | @query t statement statements ok hpc hs' =>
    obtain rfl : ok = true := ha
    subst hs'
    refine h.stored.of_eq hadded rfl ?_
    intro result hresult
    exact (exec_resultOf t.task s.db statement id).symm.trans hresult

/-- Each step keeps what holds of the solution. A task that is added comes behind the request, and
one that is written was dispatched. -/
theorem kept_step (h : Kept config id k s) (a : Action) (ha : a.succeeds = true)
    (hstep : step config s a = some s') : Kept config id k s' := by
  have hsub := addedAfter_subset a h.le hstep
  have hstored := fromLaterTask_step h a ha hstep
  rcases dispatched_step a hstep with ⟨hle, hadded⟩ | ⟨t, hdispatched, hadded⟩
  · refine ⟨hadded ▸ h.le, ?_, hstored⟩
    intro key hkey hid
    exact hsub (h.dispatched key (Multiset.mem_of_le hle hkey) hid)
  · refine ⟨?_, ?_, hstored⟩
    · rw [hadded, List.length_append]
      exact Nat.le_add_right_of_le h.le
    · intro key hkey hid
      rw [hdispatched, Multiset.mem_add, Multiset.mem_singleton] at hkey
      rcases hkey with rfl | hkey
      · rw [addedAfter, hadded, List.drop_append_of_le_length h.le, List.map_append]
        exact List.mem_append_right _ (List.mem_singleton_self _)
      · exact hsub (h.dispatched key hkey hid)

/-! ### Every run -/

/-- No request of the run is lost: a final verdict comes from a task that was added behind each
request for its solution. -/
def RequestsKept (config : Config) (db : Database) (cores : ℕ) (actions : List Action)
    (s : State) : Prop :=
  ∀ (before after : List Action) (id : Int) (requested : State),
    actions = before ++ .rejudge id :: after →
    run (step config) (start db cores) before = some requested →
    FromLaterTask config id requested.added.length s

/-- A request comes while no task of its solution is dispatched. -/
def RejudgesUndispatched (s : State) : Action → Prop :=
  RejudgesOnly (· ∉ s.dispatched.map Prod.snd)

/-- The dispatched tasks of a state are listed, so a run can be checked. -/
instance (s : State) (a : Action) : Decidable (s.RejudgesUndispatched a) :=
  inferInstanceAs (Decidable (RejudgesOnly (· ∉ s.dispatched.map Prod.snd) a))

/-- No request is lost in a run in which each request comes while no task of its solution is
between `addTask` and `updateSolution`, and no statement fails. -/
theorem requests_kept (config : Config) (db : Database) (cores : ℕ) (actions : List Action)
    (s : State) (hsql : ∀ a ∈ actions, a.succeeds = true)
    (hrun : run (step config) (start db cores) actions = some s)
    (hrequests : Along (step config) RejudgesUndispatched (start db cores) actions) :
    RequestsKept config db cores actions s := by
  rintro before after id requested rfl hbefore
  obtain ⟨m, hm, hrest⟩ := run_append_eq_some.mp hrun
  obtain rfl : requested = m := Option.some.inj (hbefore.symm.trans hm)
  obtain ⟨m', hrejudge, hafter⟩ := run_cons_eq_some.mp hrest
  rw [along_append hm] at hrequests
  have hidle : id ∉ requested.dispatched.map Prod.snd := hrequests.2.1
  obtain rfl := of_rejudge hrejudge
  -- at the request nothing of the solution is dispatched, and no verdict is stored
  have hkept : Kept config id requested.added.length
      { requested with db := requested.db.rejudge config id } := by
    refine ⟨le_rfl, ?_, .of_open fun result hresult => openCodes_of_rejudge hresult⟩
    rintro key hkey rfl
    exact absurd (Multiset.mem_map_of_mem Prod.snd hkey) hidle
  have hafter_sql : ∀ a ∈ after, a.succeeds = true := by
    intro a ha
    exact hsql a (List.mem_append_right _ (List.mem_cons_of_mem _ ha))
  exact (run_invariant (fun _ a _ ha h hstep => kept_step h a ha hstep) hafter_sql hkept
    hafter).stored

/-- A second request, behind the write of the first verdict, and a second verdict. -/
def judgeTwice : List Action :=
  dispatch ++ judgeAndFetch ++ .writerUpdate true :: List.replicate 6 (.writerQuery true) ++
    [.rejudge 1000, .readerRowsEnd, .readerCheck,
      .readerSelect (.rows [{ pendingRow with result := 1 }]), .readerRow [] true, .readerAdd] ++
    judgeAndFetch ++ [.writerUpdate true]

/-- The second request finds no task dispatched, and the second verdict is the one that stays. -/
theorem requests_kept_twice :
    ∃ s, run (step {}) (start oneSubmission 1) judgeTwice = some s ∧
      s.db.resultOf 1000 = some 5 ∧ RequestsKept {} oneSubmission 1 judgeTwice s := by
  have hend : (run (step {}) (start oneSubmission 1) judgeTwice).map
      (fun s => s.db.resultOf 1000) = some (some 5) := by decide
  obtain ⟨s, hrun, hresult⟩ := Option.map_eq_some_iff.mp hend
  refine ⟨s, hrun, hresult, requests_kept {} oneSubmission 1 judgeTwice s ?_ hrun (by decide)⟩
  exact List.forall_iff_forall_mem.mp (by simp [judgeTwice, dispatch, judgeAndFetch,
    Action.succeeds])

/-- The request comes while the core judges. The verdict of that task overwrites it, and no task of
the solution is added behind the request. -/
theorem request_overwritten :
    ¬ ∀ (config : Config) (db : Database) (cores : ℕ) (actions : List Action) (s : State),
      (∀ a ∈ actions, a.succeeds = true) →
      run (step config) (start db cores) actions = some s →
      RequestsKept config db cores actions s := by
  intro hall
  let before := dispatch ++ [.coreGet 0]
  let after : List Action := [.coreFinish 0 rejectedProgram, .coreCleanUp 0, .writerCheck,
    .writerGet, .writerUpdate true]
  have hend : (run (step {}) (start oneSubmission 1) (before ++ .rejudge 1000 :: after)).map
      (fun s => (s.db.resultOf 1000, s.added.length)) = some (some 5, 1) := by decide
  obtain ⟨s, hrun, hs⟩ := Option.map_eq_some_iff.mp hend
  rw [Prod.mk.injEq] at hs
  have hrequest : (run (step {}) (start oneSubmission 1) before).map
      (fun s => s.added.length) = some 1 := by decide
  obtain ⟨requested, hrequested, hadded⟩ := Option.map_eq_some_iff.mp hrequest
  have hkept := hall {} oneSubmission 1 _ s (by decide) hrun before after 1000 requested rfl
    hrequested
  obtain ⟨t, -, -, haddr⟩ := hkept 5 hs.1 (by decide)
  -- no task was added behind the request
  rw [addedAfter, hadded, List.drop_eq_nil_of_le hs.2.le] at haddr
  exact absurd haddr List.not_mem_nil

end State

end OnlineJudger
