import OnlineJudger.Proofs.Judger.Progress

/-!
# `OnlineJudger.Proofs.Judger.Drained`: what is left when nothing moves

Before the exit the cores and the writer wait for tasks only. `PermitsExact` says that each entry
of the two queues has its permit, which holds along every run in which no semaphore is at its
maximum. Then a state in which neither a core nor the writer can move has empty queues, and the
bookkeeping of the pipeline says that every task is written (`all_written_of_stuck`).
-/

set_option autoImplicit false

namespace OnlineJudger

open Lib

namespace State

variable {config : Config} {s s' : State}

/-! ### What is left when nothing moves -/

/-- Neither semaphore is at its maximum, so the next release succeeds. -/
def Room (s : State) : Prop :=
  s.tasks.permits < ZSemaphore.maximum ∧ s.finishTask.permits < ZSemaphore.maximum

/-- Two comparisons. -/
instance (s : State) : Decidable s.Room := by
  unfold Room
  infer_instance

/-- There is a permit for each entry of the two queues. With a failed release there would be
fewer. -/
structure PermitsExact (s : State) : Prop where
  tasks : s.tasks.permits = s.tasks.pool.length
  finishTask : s.finishTask.permits = s.finishTask.pool.length

/-- A release below the maximum succeeds. -/
theorem push_eq {permits : ℕ} (h : permits < ZSemaphore.maximum) :
    ZSemaphore.push permits = permits + 1 := if_pos h

/-- One entry more, and one permit more. -/
theorem permits_add {q : TaskMgr (Option TaskObj)} (h : q.permits = q.pool.length)
    (hroom : q.permits < ZSemaphore.maximum) (t? : Option TaskObj) :
    (q.add t?).permits = (q.add t?).pool.length ∧
      (q.addFront t?).permits = (q.addFront t?).pool.length := by
  constructor
  · show ZSemaphore.push q.permits = (q.pool ++ [t?]).length
    rw [push_eq hroom, List.length_append, List.length_singleton, h]
  · show ZSemaphore.push q.permits = (t? :: q.pool).length
    rw [push_eq hroom, List.length_cons, h]

/-- `get` takes one of each. -/
theorem permits_get {q q' : TaskMgr (Option TaskObj)} (h : q.permits = q.pool.length)
    {t? : Option TaskObj} (hget : q.get = some (t?, q')) : q'.permits = q'.pool.length := by
  rw [TaskMgr.permits_of_get hget, TaskMgr.pool_of_get hget, List.length_cons] at h
  omega

/-- Each step keeps the permits exact, as long as neither semaphore is at its maximum in front of
it. -/
theorem permitsExact_step (hroom : Room s) (h : PermitsExact s) (a : Action)
    (hstep : step config s a = some s') : PermitsExact s' := by
  cases a with
  | submit row => obtain ⟨_, -, rfl⟩ := of_submit hstep; exact ⟨h.tasks, h.finishTask⟩
  | rejudge id => rw [of_rejudge hstep]; exact ⟨h.tasks, h.finishTask⟩
  | readerCheck => rw [(of_readerCheck hstep).2]; exact ⟨h.tasks, h.finishTask⟩
  | readerSelect answer =>
    obtain ⟨-, rfl | rfl | ⟨rows, -, -, rfl⟩⟩ := of_readerSelect hstep <;>
      exact ⟨h.tasks, h.finishTask⟩
  | readerRow testData ok =>
    obtain ⟨row, rows, -, ⟨-, rfl⟩ | ⟨-, rfl⟩⟩ := of_readerRow hstep <;>
      exact ⟨h.tasks, h.finishTask⟩
  | readerAdd =>
    obtain ⟨t, rows, -, rfl⟩ := of_readerAdd hstep
    exact ⟨(permits_add h.tasks hroom.1 (some t)).1, h.finishTask⟩
  | readerRowsEnd => rw [(of_readerRowsEnd hstep).2]; exact ⟨h.tasks, h.finishTask⟩
  | coreGet i =>
    obtain ⟨-, task?, tasks, hget, hs'⟩ := of_coreGet hstep
    have htasks := permits_get h.tasks hget
    cases task? <;> subst hs' <;> exact ⟨htasks, h.finishTask⟩
  | coreFinish i env =>
    obtain ⟨t, -, rfl⟩ := of_coreFinish hstep
    exact ⟨h.tasks, (permits_add h.finishTask hroom.2 _).1⟩
  | coreCleanUp i => obtain ⟨t, ok, -, rfl⟩ := of_coreCleanUp hstep; exact ⟨h.tasks, h.finishTask⟩
  | writerCheck => rw [(of_writerCheck hstep).2]; exact ⟨h.tasks, h.finishTask⟩
  | writerGet =>
    obtain ⟨-, task?, finishTask, hget, hs'⟩ := of_writerGet hstep
    have hfinish := permits_get h.finishTask hget
    cases task? <;> subst hs' <;> exact ⟨h.tasks, hfinish⟩
  | writerUpdate ok => obtain ⟨t, -, rfl⟩ := of_writerUpdate hstep; exact ⟨h.tasks, h.finishTask⟩
  | writerQuery ok =>
    obtain ⟨t, statement, statements, -, rfl⟩ := of_writerQuery hstep
    exact ⟨h.tasks, h.finishTask⟩
  | mainExit => rw [(of_mainExit hstep).2]; exact ⟨h.tasks, h.finishTask⟩
  | mainPush =>
    obtain ⟨n, -, rfl⟩ := of_mainPush hstep
    exact ⟨(permits_add h.tasks hroom.1 none).2, h.finishTask⟩
  | mainJoinCores => rw [(of_mainJoinCores hstep).2.2]; exact ⟨h.tasks, h.finishTask⟩
  | mainDbStop => rw [(of_mainDbStop hstep).2]; exact ⟨h.tasks, h.finishTask⟩
  | mainDbMarker =>
    obtain ⟨-, rfl⟩ := of_mainDbMarker hstep
    exact ⟨h.tasks, (permits_add h.finishTask hroom.2 none).2⟩
  | mainJoinReader => rw [(of_mainJoinReader hstep).2.2]; exact ⟨h.tasks, h.finishTask⟩
  | mainJoinWriter => rw [(of_mainJoinWriter hstep).2.2]; exact ⟨h.tasks, h.finishTask⟩

/-- Before the exit the writer goes on: the flag is set, and no marker has come to it. -/
structure WriterOpen (s : State) : Prop where
  running : s.main = .commands → s.running = true
  writer : s.main = .commands → s.writer ≠ .exited

/-- The writer ends at the `NULL` only, and that is pushed after the exit. As long as `m_running` is
set there is no `NULL` in `m_finishTask`, so what the writer takes is a task. -/
theorem writerOpen_step (hphases : Phases s) (h : WriterOpen s) (a : Action)
    (hstep : step config s a = some s') : WriterOpen s' := by
  cases hparty : a.party with
  | frontEnd =>
    obtain ⟨db, rfl⟩ := frontEnd_frame hparty hstep
    exact ⟨h.running, h.writer⟩
  | reader =>
    obtain ⟨reader, nextAddr, db, tasks, added, rfl⟩ := reader_frame hparty hstep
    exact ⟨h.running, h.writer⟩
  | core =>
    obtain ⟨i, c, c', tasks, taken, finishTask, reported, -, -, rfl⟩ := core_frame hparty hstep
    exact ⟨h.running, h.writer⟩
  | writer =>
    cases a with
    | writerCheck =>
      obtain ⟨-, rfl⟩ := of_writerCheck hstep
      refine ⟨h.running, ?_⟩
      intro hpc
      simp only [h.running hpc, if_true, ne_eq, reduceCtorEq, not_false_eq_true]
    | writerGet =>
      obtain ⟨-, task?, finishTask, hget, hs'⟩ := of_writerGet hstep
      cases task? with
      | none =>
        subst hs'
        refine ⟨h.running, ?_⟩
        intro hpc
        -- a `NULL` would say that the exit has begun
        have hmem : none ∈ s.finishTask.pool := by
          rw [TaskMgr.pool_of_get hget]
          exact List.mem_cons_self ..
        have hafter := hphases.null hmem
        rw [show s.main = .commands from hpc] at hafter
        exact Bool.noConfusion hafter
      | some t =>
        subst hs'
        exact ⟨h.running, fun _ => WriterPc.noConfusion⟩
    | writerUpdate ok =>
      obtain ⟨t, -, rfl⟩ := of_writerUpdate hstep
      exact ⟨h.running, fun _ => WriterPc.noConfusion⟩
    | writerQuery ok =>
      obtain ⟨t, statement, statements, -, rfl⟩ := of_writerQuery hstep
      refine ⟨h.running, fun _ hexited => ?_⟩
      simp only [] at hexited
      split at hexited <;> exact WriterPc.noConfusion hexited
    | _ => cases hparty
  | main =>
    have hne : s'.main ≠ .commands := by
      cases a with
      | mainExit => rw [(of_mainExit hstep).2]; exact MainPc.noConfusion
      | mainPush => obtain ⟨n, -, rfl⟩ := of_mainPush hstep; exact MainPc.noConfusion
      | mainJoinCores => rw [(of_mainJoinCores hstep).2.2]; exact MainPc.noConfusion
      | mainDbStop => rw [(of_mainDbStop hstep).2]; exact MainPc.noConfusion
      | mainDbMarker => rw [(of_mainDbMarker hstep).2]; exact MainPc.noConfusion
      | mainJoinReader => rw [(of_mainJoinReader hstep).2.2]; exact MainPc.noConfusion
      | mainJoinWriter => rw [(of_mainJoinWriter hstep).2.2]; exact MainPc.noConfusion
      | _ => cases hparty
    exact ⟨fun hpc => absurd hpc hne, fun hpc => absurd hpc hne⟩

/-- So it goes on in every reachable state before the exit. -/
theorem writerOpen_of_reachable (h : Reachable config s) : WriterOpen s := by
  obtain ⟨db, cores, actions, hrun⟩ := h
  have hstep : ∀ s a s', True → Phases s ∧ WriterOpen s → step config s a = some s' →
      Phases s' ∧ WriterOpen s' :=
    fun s a s' _ h hstep => ⟨phases_step a h.1 hstep, writerOpen_step h.1 h.2 a hstep⟩
  have hstart : WriterOpen (start db cores) := ⟨fun _ => rfl, fun _ => WriterPc.noConfusion⟩
  have hinv := run_invariant hstep (fun _ _ => trivial) ⟨phases_start db cores, hstart⟩ hrun
  exact hinv.2

/-- The actions of the cores and the writer. -/
def Judging (a : Action) : Prop := a.party = .core ∨ a.party = .writer

/-- Nothing of a task is left: both queues are empty, nobody holds a task, and every task that was
added is written once. -/
structure Drained (s : State) : Prop where
  tasks : s.tasks.pool = []
  finishTask : s.finishTask.pool = []
  cores : ∀ c ∈ s.cores, c = .getting ∨ c = .exited
  writer : s.writer = .getting
  written : ∀ t ∈ s.added, (s.written.map TaskObj.addr).count t.addr = 1

/-- A core that cannot move waits at an empty queue, or has ended. -/
theorem core_of_stuck (hstuck : Stuck (step config) Judging s) {i : ℕ} {c : CorePc}
    (hc : s.cores[i]? = some c) : c = .exited ∨ c = .getting ∧ s.tasks.permits = 0 := by
  by_contra hnot
  rw [not_or, not_and] at hnot
  obtain ⟨a, s', ha, hstep⟩ := exists_core_step config hc hnot.1
    fun hget => Nat.pos_of_ne_zero (hnot.2 hget)
  exact hstuck.not_some (.inl ha) hstep

/-- Nothing moves, so nothing of a task is left: a core that had one could go on, and with a permit
a thread could take one. -/
theorem drained_of_stuck (h : Reachable config s) (hexact : PermitsExact s)
    (hpc : s.main = .commands) (halive : 0 < s.alive)
    (hstuck : Stuck (step config) Judging s) : Drained s := by
  obtain ⟨c, hmem, hc⟩ := List.countP_pos_iff.mp halive
  obtain ⟨i, hi⟩ := List.getElem?_of_mem hmem
  have htasks : s.tasks.pool = [] := by
    rcases core_of_stuck hstuck hi with rfl | ⟨-, hpermits⟩
    · simp only [ne_eq, not_true_eq_false, decide_false, Bool.false_eq_true] at hc
    · rw [hexact.tasks] at hpermits
      exact List.eq_nil_of_length_eq_zero hpermits
  have hcores : ∀ c ∈ s.cores, c = .getting ∨ c = .exited := by
    intro c hmem
    obtain ⟨i, hi⟩ := List.getElem?_of_mem hmem
    rcases core_of_stuck hstuck hi with hexited | ⟨hgetting, -⟩
    · exact .inr hexited
    · exact .inl hgetting
  -- the writer has not ended, so it waits at an empty queue
  have hwriter : s.writer = .getting ∧ s.finishTask.permits = 0 := by
    by_contra hnot
    rw [not_and] at hnot
    obtain ⟨a, s', ha, hstep⟩ := exists_writer_step config (writerReady_of_reachable h)
      ((writerOpen_of_reachable h).writer hpc) fun hget => Nat.pos_of_ne_zero (hnot hget)
    exact hstuck.not_some (.inr ha) hstep
  have hfinish : s.finishTask.pool = [] := by
    have hpermits := hwriter.2
    rw [hexact.finishTask] at hpermits
    exact List.eq_nil_of_length_eq_zero hpermits
  refine ⟨htasks, hfinish, hcores, hwriter.1, ?_⟩
  intro t ht
  obtain ⟨p, -, hp⟩ := exists_pipeline h
  have hplace := (hp.conserved (phases_of_reachable h).null).onePlace t ht
  have hjudging : s.cores.filterMap CorePc.judgingAddr = [] := by
    rw [List.filterMap_eq_nil_iff]
    intro c hmem
    rcases hcores c hmem with rfl | rfl <;> rfl
  simpa [places, Places.keys, realTasks, htasks, hfinish, hwriter.1, WriterPc.held, hjudging]
    using hplace

/-- An empty queue makes its caller wait. -/
theorem get_of_pool_nil {q : TaskMgr (Option TaskObj)} (h : q.pool = []) : q.get = none := by
  cases hget : q.get with
  | none => rfl
  | some r =>
    obtain ⟨t?, q'⟩ := r
    rw [TaskMgr.pool_of_get hget] at h
    exact absurd h (List.cons_ne_nil _ _)

/-- With empty queues the cores and the writer wait. Each of them stands in front of a `get` that
has no permit. -/
theorem stuck_of_drained (h : Drained s) : Stuck (step config) Judging s := by
  have htasks := get_of_pool_nil h.tasks
  have hfinish := get_of_pool_nil h.finishTask
  -- no core is in `judge`
  have hcore : ∀ (i : ℕ) (c : CorePc), s.cores[i]? = some c → c = .getting ∨ c = .exited :=
    fun i c hc => h.cores c (List.mem_of_getElem? hc)
  intro a ha
  cases hstep : step config s a with
  | none => rfl
  | some s' =>
    cases a with
    | coreGet i =>
      obtain ⟨-, t?, q, hget, -⟩ := of_coreGet hstep
      rw [htasks] at hget
      simp only [reduceCtorEq] at hget
    | coreFinish i env =>
      obtain ⟨t, hc, -⟩ := of_coreFinish hstep
      rcases hcore i _ hc with hc | hc <;> exact CorePc.noConfusion hc
    | coreCleanUp i =>
      obtain ⟨t, ok, hc, -⟩ := of_coreCleanUp hstep
      rcases hcore i _ hc with hc | hc <;> exact CorePc.noConfusion hc
    | writerCheck =>
      exact WriterPc.noConfusion ((of_writerCheck hstep).1.symm.trans h.writer)
    | writerGet =>
      obtain ⟨-, t?, q, hget, -⟩ := of_writerGet hstep
      rw [hfinish] at hget
      simp only [reduceCtorEq] at hget
    | writerUpdate ok =>
      obtain ⟨t, hpc, -⟩ := of_writerUpdate hstep
      exact WriterPc.noConfusion (hpc.symm.trans h.writer)
    | writerQuery ok =>
      obtain ⟨t, statement, statements, hpc, -⟩ := of_writerQuery hstep
      exact WriterPc.noConfusion (hpc.symm.trans h.writer)
    | _ => rcases ha with ha | ha <;> cases ha

/-- The statements behind `updateSolution`, and the way back to `getFinishTask`. -/
def writeOut : List Action := List.replicate 6 (.writerQuery true) ++ [.writerCheck]

end State

end OnlineJudger
