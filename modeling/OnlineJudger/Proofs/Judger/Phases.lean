import OnlineJudger.Proofs.Judger.Frames

/-!
# `OnlineJudger.Proofs.Judger.Phases`: the order of the exit

`main` first stops the cell and then the database manager. `Phases` says what each phase has
brought about: the cores have ended, `m_running` is false, and the writer finds the `NULL` of
`DBManager::stop` in front of every task that is left. It holds in every reachable state
(`phases_of_reachable`).

`Over` says what is over in a phase: once the cores have ended no task is reported any more,
and once the `NULL` is pushed no finished task is fetched any more (`over_run`).
-/

set_option autoImplicit false

namespace OnlineJudger

open Lib

namespace MainPc

/-- `m_cores.clear()` has returned. -/
def afterCells : MainPc → Bool
  | .commands | .cellStop _ => false
  | _ => true

/-- `DBManager::stop` has set `m_running`. -/
def afterFlag : MainPc → Bool
  | .commands | .cellStop _ | .dbStop => false
  | _ => true

/-- `DBManager::stop` has pushed its `NULL`. -/
def afterMarker : MainPc → Bool
  | .joinReader | .joinWriter | .stopped => true
  | _ => false

end MainPc

namespace State

/-- What the phases of the exit have brought about. Each phase of `main` waits for the threads that
it names, so a later phase knows more. -/
structure Phases (s : State) : Prop where
  cores : s.main.afterCells = true → ∀ c ∈ s.cores, c = .exited
  running : s.main.afterFlag = true → s.running = false
  /-- A `NULL` gets into `m_finishTask` only by `DBManager::stop`. -/
  null : none ∈ s.finishTask.pool → s.main.afterMarker = true
  front : s.main.afterMarker = true → s.writer = .getting → s.finishTask.pool.head? = some none
  writer : s.main = .stopped → s.writer = .exited

variable {config : Config} {s s' : State}

/-- No core takes a step once all have ended. -/
theorem Phases.not_afterCells (h : Phases s) {i : ℕ} {c : CorePc} (hc : s.cores[i]? = some c)
    (hne : c ≠ .exited) : s.main.afterCells = false := by
  refine Bool.eq_false_iff.mpr ?_
  intro hafter
  exact hne (h.cores hafter c (List.mem_of_getElem? hc))

/-- Before the `NULL` is pushed, the writer finds none. -/
theorem Phases.none_notMem (h : Phases s) (hpc : s.main.afterMarker = false) :
    none ∉ s.finishTask.pool := by
  intro hnone
  rw [h.null hnone] at hpc
  exact Bool.noConfusion hpc

/-- Behind the `NULL`, the flag is false already. -/
theorem Phases.not_running (h : Phases s) (hpc : s.main.afterMarker = true) :
    s.running = false := by
  refine h.running ?_
  cases hmain : s.main <;> rw [hmain] at hpc <;> first | rfl | exact Bool.noConfusion hpc

/-- The phases come in this order: before the first is over, none of the later ones is. -/
theorem not_later_of_not_afterCells {pc : MainPc} (h : pc.afterCells = false) :
    pc.afterFlag = false ∧ pc.afterMarker = false ∧ pc ≠ .stopped := by
  cases pc with
  | commands => exact ⟨rfl, rfl, MainPc.noConfusion⟩
  | cellStop n => exact ⟨rfl, rfl, MainPc.noConfusion⟩
  | dbStop => exact Bool.noConfusion h
  | dbMarker => exact Bool.noConfusion h
  | joinReader => exact Bool.noConfusion h
  | joinWriter => exact Bool.noConfusion h
  | stopped => exact Bool.noConfusion h

/-- Before the cell has stopped, only the queue matters, because the other fields speak of later
phases. -/
theorem phases_of_not_afterCells (hcells : s.main.afterCells = false)
    (hnone : none ∉ s.finishTask.pool) : Phases s := by
  obtain ⟨hflag, hmarker, hstopped⟩ := not_later_of_not_afterCells hcells
  refine ⟨?_, ?_, fun hmem => absurd hmem hnone, ?_, fun hafter => absurd hafter hstopped⟩
  · intro hafter
    rw [hcells] at hafter
    exact Bool.noConfusion hafter
  · intro hafter
    rw [hflag] at hafter
    exact Bool.noConfusion hafter
  · intro hafter
    rw [hmarker] at hafter
    exact Bool.noConfusion hafter

/-- A core changes its own place and the queues, before the cell has stopped. -/
theorem phases_core (h : Phases s) {i : ℕ} {c : CorePc} (hc : s.cores[i]? = some c)
    (hne : c ≠ .exited) (hmain : s'.main = s.main)
    (hnull : none ∈ s'.finishTask.pool → none ∈ s.finishTask.pool) : Phases s' := by
  -- a core that moves says that the cell has not stopped, and then no later phase has begun
  have hcells := h.not_afterCells hc hne
  obtain ⟨-, hmarker, -⟩ := not_later_of_not_afterCells hcells
  refine phases_of_not_afterCells (by rw [hmain]; exact hcells) ?_
  intro hmem
  exact h.none_notMem hmarker (hnull hmem)

/-- Each step keeps what the phases have brought about. The steps of `main` enter a phase, and the
others stay in it. -/
theorem phases_step (a : Action) (h : Phases s) (hstep : step config s a = some s') :
    Phases s' := by
  cases ha : a.party with
  | frontEnd =>
    obtain ⟨db, rfl⟩ := frontEnd_frame ha hstep
    exact ⟨h.cores, h.running, h.null, h.front, h.writer⟩
  | reader =>
    obtain ⟨reader, nextAddr, db, tasks, added, rfl⟩ := reader_frame ha hstep
    exact ⟨h.cores, h.running, h.null, h.front, h.writer⟩
  | core =>
    cases a with
    | coreGet i =>
      obtain ⟨hpc, task?, tasks, -, hs'⟩ := of_coreGet hstep
      cases task? <;> subst hs' <;> exact phases_core h hpc (by decide) rfl id
    | coreFinish i env =>
      obtain ⟨t, hpc, rfl⟩ := of_coreFinish hstep
      refine phases_core h hpc (by simp only [ne_eq, reduceCtorEq, not_false_eq_true]) rfl ?_
      intro hnone
      rcases List.mem_append.mp hnone with hnone | hnone
      · exact hnone
      · exact absurd (List.mem_singleton.mp hnone) (by simp only [reduceCtorEq, not_false_eq_true])
    | coreCleanUp i =>
      obtain ⟨t, ok, hpc, rfl⟩ := of_coreCleanUp hstep
      exact phases_core h hpc (by simp only [ne_eq, reduceCtorEq, not_false_eq_true]) rfl id
    | _ => cases ha
  | writer =>
    cases a with
    | writerCheck =>
      obtain ⟨hpc, rfl⟩ := of_writerCheck hstep
      refine ⟨h.cores, h.running, h.null, ?_, fun hstopped => absurd (h.writer hstopped) ?_⟩
      · -- the writer goes on only while `m_running` holds, and that is before the marker
        intro hafter hgetting
        simp only [h.not_running hafter, Bool.false_eq_true, if_false, reduceCtorEq] at hgetting
      · rw [hpc]
        exact WriterPc.noConfusion
    | writerGet =>
      obtain ⟨hpc, task?, finishTask, hget, hs'⟩ := of_writerGet hstep
      -- fetching brings nothing new into the queue
      have hpool : none ∈ finishTask.pool → none ∈ s.finishTask.pool := by
        rw [TaskMgr.pool_of_get hget]
        exact List.mem_cons_of_mem _
      have hnot : s.writer ≠ .exited := by
        rw [hpc]
        exact WriterPc.noConfusion
      cases task? with
      | none =>
        subst hs'
        exact ⟨h.cores, h.running, fun hnone => h.null (hpool hnone),
          fun _ hgetting => WriterPc.noConfusion hgetting, fun _ => rfl⟩
      | some t =>
        subst hs'
        exact ⟨h.cores, h.running, fun hnone => h.null (hpool hnone),
          fun _ hgetting => WriterPc.noConfusion hgetting,
          fun hstopped => absurd (h.writer hstopped) hnot⟩
    | writerUpdate ok =>
      obtain ⟨t, hpc, rfl⟩ := of_writerUpdate hstep
      refine ⟨h.cores, h.running, h.null, fun _ hgetting => WriterPc.noConfusion hgetting,
        fun hstopped => absurd (h.writer hstopped) ?_⟩
      rw [hpc]
      exact WriterPc.noConfusion
    | writerQuery ok =>
      obtain ⟨t, statement, statements, hpc, rfl⟩ := of_writerQuery hstep
      refine ⟨h.cores, h.running, h.null, ?_, fun hstopped => absurd (h.writer hstopped) ?_⟩
      · intro _ hgetting
        simp only [] at hgetting
        split at hgetting <;> exact WriterPc.noConfusion hgetting
      · rw [hpc]
        exact WriterPc.noConfusion
    | _ => cases ha
  | main =>
    cases a with
    | mainExit =>
      obtain ⟨hpc, rfl⟩ := of_mainExit hstep
      exact phases_of_not_afterCells rfl (h.none_notMem (by rw [hpc]; rfl))
    | mainPush =>
      obtain ⟨n, hpc, rfl⟩ := of_mainPush hstep
      exact phases_of_not_afterCells rfl (h.none_notMem (by rw [hpc]; rfl))
    | mainJoinCores =>
      obtain ⟨hpc, hcores, rfl⟩ := of_mainJoinCores hstep
      have hnone := h.none_notMem (by rw [hpc]; rfl)
      exact ⟨fun _ => hcores, fun hafter => Bool.noConfusion hafter,
        fun hmem => absurd hmem hnone, fun hafter => Bool.noConfusion hafter,
        fun hafter => MainPc.noConfusion hafter⟩
    | mainDbStop =>
      obtain ⟨hpc, rfl⟩ := of_mainDbStop hstep
      have hnone := h.none_notMem (by rw [hpc]; rfl)
      exact ⟨fun _ => h.cores (by rw [hpc]; rfl), fun _ => rfl, fun hmem => absurd hmem hnone,
        fun hafter => Bool.noConfusion hafter, fun hafter => MainPc.noConfusion hafter⟩
    | mainDbMarker =>
      obtain ⟨hpc, rfl⟩ := of_mainDbMarker hstep
      exact ⟨fun _ => h.cores (by rw [hpc]; rfl), fun _ => h.running (by rw [hpc]; rfl),
        -- the marker is pushed in front, whatever the writer does
        fun _ => rfl, fun _ _ => rfl, fun hafter => MainPc.noConfusion hafter⟩
    | mainJoinReader =>
      obtain ⟨hpc, -, rfl⟩ := of_mainJoinReader hstep
      exact ⟨fun _ => h.cores (by rw [hpc]; rfl), fun _ => h.running (by rw [hpc]; rfl),
        fun _ => rfl, fun _ => h.front (by rw [hpc]; rfl), fun hafter => MainPc.noConfusion hafter⟩
    | mainJoinWriter =>
      obtain ⟨hpc, hwriter, rfl⟩ := of_mainJoinWriter hstep
      exact ⟨fun _ => h.cores (by rw [hpc]; rfl), fun _ => h.running (by rw [hpc]; rfl),
        fun _ => rfl, fun _ => h.front (by rw [hpc]; rfl), fun _ => hwriter⟩
    | _ => cases ha

/-- At the start no phase is over. -/
theorem phases_start (db : Database) (cores : ℕ) : Phases (start db cores) :=
  phases_of_not_afterCells rfl List.not_mem_nil

/-- So every run keeps it. -/
theorem phases_run {actions : List Action} (h : Phases s)
    (hrun : run (step config) s actions = some s') : Phases s' :=
  run_invariant (fun _ a _ (_ : True) hs hstep => phases_step a hs hstep)
    (fun _ _ => trivial) h hrun

/-- And it holds in every reachable state. -/
theorem phases_of_reachable (h : Reachable config s) : Phases s := by
  obtain ⟨db, cores, actions, hrun⟩ := h
  exact phases_run (phases_start db cores) hrun

/-! ### What is over in a phase -/

/-- What does not change any more: the reported tasks once the cores have ended, and the finished
tasks in the queue once the `NULL` is pushed. Both are statements about two states of one run. -/
structure Over (s s' : State) : Prop where
  cells : s.main.afterCells = true → s'.reported = s.reported ∧ s'.main.afterCells = true
  marker : s.main.afterMarker = true →
    realTasks s'.finishTask = realTasks s.finishTask ∧ s'.main.afterMarker = true

/-- Nothing has changed. -/
theorem Over.refl (s : State) : Over s s := ⟨fun h => ⟨rfl, h⟩, fun h => ⟨rfl, h⟩⟩

/-- Two stretches of a run. What is over behind the first one is over in the second one. -/
theorem Over.trans {s₁ s₂ s₃ : State} (h : Over s₁ s₂) (h' : Over s₂ s₃) : Over s₁ s₃ := by
  refine ⟨?_, ?_⟩
  · intro hafter
    obtain ⟨heq, hafter⟩ := h.cells hafter
    obtain ⟨heq', hafter⟩ := h'.cells hafter
    exact ⟨heq'.trans heq, hafter⟩
  · intro hafter
    obtain ⟨heq, hafter⟩ := h.marker hafter
    obtain ⟨heq', hafter⟩ := h'.marker hafter
    exact ⟨heq'.trans heq, hafter⟩

/-- A step of another thread, which reports nothing and fetches nothing. -/
theorem Over.of_eq (hreported : s'.reported = s.reported)
    (htasks : realTasks s'.finishTask = realTasks s.finishTask) (hmain : s'.main = s.main) :
    Over s s' := by
  constructor
  · intro hafter
    exact ⟨hreported, hmain ▸ hafter⟩
  · intro hafter
    exact ⟨htasks, hmain ▸ hafter⟩

/-- Before the cell has stopped, nothing is over. -/
theorem over_of_not_afterCells (h : s.main.afterCells = false) : Over s s' := by
  obtain ⟨-, hmarker, -⟩ := not_later_of_not_afterCells h
  constructor
  · intro hafter
    rw [h] at hafter
    exact Bool.noConfusion hafter
  · intro hafter
    rw [hmarker] at hafter
    exact Bool.noConfusion hafter

/-- No step changes what is over: a core would have to report, or the writer to fetch. Both have
ended by then, and a thread that has ended makes no step. -/
theorem over_step (a : Action) (h : Phases s) (hstep : step config s a = some s') :
    Over s s' := by
  cases ha : a.party with
  | frontEnd =>
    obtain ⟨db, rfl⟩ := frontEnd_frame ha hstep
    exact .of_eq rfl rfl rfl
  | reader =>
    obtain ⟨reader, nextAddr, db, tasks, added, rfl⟩ := reader_frame ha hstep
    exact .of_eq rfl rfl rfl
  | core =>
    obtain ⟨i, c, -, -, -, -, -, hc, hne, -⟩ := core_frame ha hstep
    exact over_of_not_afterCells (h.not_afterCells hc hne)
  | writer =>
    cases a with
    | writerCheck =>
      obtain ⟨-, rfl⟩ := of_writerCheck hstep
      exact .of_eq rfl rfl rfl
    | writerGet =>
      obtain ⟨hpc, task?, finishTask, hget, hs'⟩ := of_writerGet hstep
      cases task? with
      | none =>
        subst hs'
        exact .of_eq rfl (realTasks_get_none hget) rfl
      | some t =>
        subst hs'
        refine ⟨fun h => ⟨rfl, h⟩, ?_⟩
        intro hafter
        -- the marker is in front, so the writer does not get a task
        have hfront := h.front hafter hpc
        rw [TaskMgr.pool_of_get hget] at hfront
        simp only [List.head?_cons, Option.some.injEq, reduceCtorEq] at hfront
    | writerUpdate ok =>
      obtain ⟨t, -, rfl⟩ := of_writerUpdate hstep
      exact .of_eq rfl rfl rfl
    | writerQuery ok =>
      obtain ⟨t, statement, statements, -, rfl⟩ := of_writerQuery hstep
      exact .of_eq rfl rfl rfl
    | _ => cases ha
  | main =>
    cases a with
    | mainExit =>
      obtain ⟨hpc, -⟩ := of_mainExit hstep
      exact over_of_not_afterCells (by rw [hpc]; rfl)
    | mainPush =>
      obtain ⟨n, hpc, -⟩ := of_mainPush hstep
      exact over_of_not_afterCells (by rw [hpc]; rfl)
    | mainJoinCores =>
      obtain ⟨hpc, -⟩ := of_mainJoinCores hstep
      exact over_of_not_afterCells (by rw [hpc]; rfl)
    | mainDbStop =>
      obtain ⟨hpc, rfl⟩ := of_mainDbStop hstep
      refine ⟨fun _ => ⟨rfl, rfl⟩, fun hafter => absurd hafter ?_⟩
      rw [hpc]
      exact Bool.false_ne_true
    | mainDbMarker =>
      obtain ⟨hpc, rfl⟩ := of_mainDbMarker hstep
      exact ⟨fun _ => ⟨rfl, rfl⟩, fun _ => ⟨rfl, rfl⟩⟩
    | mainJoinReader =>
      obtain ⟨-, -, rfl⟩ := of_mainJoinReader hstep
      exact ⟨fun _ => ⟨rfl, rfl⟩, fun _ => ⟨rfl, rfl⟩⟩
    | mainJoinWriter =>
      obtain ⟨-, -, rfl⟩ := of_mainJoinWriter hstep
      exact ⟨fun _ => ⟨rfl, rfl⟩, fun _ => ⟨rfl, rfl⟩⟩
    | _ => cases ha

/-- No run changes it. -/
theorem over_run {actions : List Action} (h : Phases s)
    (hrun : run (step config) s actions = some s') : Over s s' :=
  run_relation Over.refl (fun _ _ _ => Over.trans)
    (fun _ a _ hs hstep => ⟨phases_step a hs hstep, over_step a hs hstep⟩) h hrun

end State

end OnlineJudger
