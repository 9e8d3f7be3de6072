import OnlineJudger.Proofs.Judger.System

/-!
# `OnlineJudger.Proofs.Judger.CellStop`: the exit markers

`JudgeCell::stop` pushes one `NULL` for each core in front of the waiting tasks, and a core that
gets one ends. `CellInv` counts them: the markers in front of `m_tasks` and those that are still
to be pushed are enough for the cores that have not ended.

A marker is of use only with a permit. The semaphore takes 32767 of them, and a release beyond
fails. `stop_reaches_iff` says that the stop reaches every core exactly when there are not more
cores than that.
-/

set_option autoImplicit false

namespace OnlineJudger

open Lib

namespace TaskMgr

variable {Task : Type} {q q' : TaskMgr Task} {task : Task}

/-- `get` takes a permit. -/
theorem permits_of_get (h : q.get = some (task, q')) : q.permits = q'.permits + 1 := by
  obtain ⟨pool, permits, hle⟩ := q
  cases permits with
  | zero => simp only [get, reduceCtorEq] at h
  | succ permits =>
    cases pool with
    | nil => exact absurd hle (Nat.not_succ_le_zero _)
    | cons t pool =>
      simp only [get, Option.some.injEq, Prod.mk.injEq] at h
      rw [← h.2]

/-- `get` waits only without a permit. -/
theorem exists_get (h : 0 < q.permits) : ∃ task q', q.get = some (task, q') := by
  obtain ⟨pool, permits, hle⟩ := q
  cases permits with
  | zero => exact absurd h (Nat.lt_irrefl 0)
  | succ permits =>
    cases pool with
    | nil => exact absurd hle (Nat.not_succ_le_zero _)
    | cons t pool => exact ⟨t, _, rfl⟩

/-- `add` takes no permit. -/
theorem permits_le_add (q : TaskMgr Task) (task : Task) : q.permits ≤ (q.add task).permits := by
  show q.permits ≤ ZSemaphore.push q.permits
  unfold ZSemaphore.push
  split <;> omega

/-! ### Queues with markers in front -/

section Marked

variable {α : Type} {q q' : TaskMgr (Option α)} {m : ℕ}

/-- `m` markers, and real tasks behind them. Markers are pushed to the front, and tasks are added at
the back, so the queue always looks like this. -/
def Marked (q : TaskMgr (Option α)) (m : ℕ) : Prop :=
  ∃ reals : List α, q.pool = List.replicate m none ++ reals.map some

/-- The markers in front of the real tasks. -/
def markers (q : TaskMgr (Option α)) : ℕ := (q.pool.takeWhile Option.isNone).length

/-- The markers in front can be read off the list. -/
theorem Marked.markers_eq (h : Marked q m) : markers q = m := by
  obtain ⟨reals, hpool⟩ := h
  rw [markers, hpool]
  clear hpool
  induction m with
  | zero => cases reals <;> rfl
  | succ m ih => exact congrArg Nat.succ ih

/-- A real task is put behind the others. -/
theorem Marked.add (h : Marked q m) (t : α) : Marked (q.add (some t)) m := by
  obtain ⟨reals, hpool⟩ := h
  refine ⟨reals ++ [t], ?_⟩
  rw [add_pool, hpool, List.append_assoc, List.map_append]
  rfl

/-- A marker is put in front. -/
theorem Marked.addFront (h : Marked q m) : Marked (q.addFront none) (m + 1) := by
  obtain ⟨reals, hpool⟩ := h
  exact ⟨reals, congrArg (List.cons none) hpool⟩

/-- The front is a marker: it is one of those in front. -/
theorem Marked.get_none (h : Marked q m) (hget : q.get = some (none, q')) :
    ∃ m', m = m' + 1 ∧ Marked q' m' := by
  obtain ⟨reals, hpool⟩ := h
  rw [pool_of_get hget] at hpool
  cases m with
  | zero => cases reals <;> simp at hpool
  | succ m => exact ⟨m, rfl, reals, List.tail_eq_of_cons_eq hpool⟩

/-- The front is a real task: there is no marker in front of it. -/
theorem Marked.get_some (h : Marked q m) {t : α} (hget : q.get = some (some t, q')) :
    m = 0 ∧ Marked q' 0 := by
  obtain ⟨reals, hpool⟩ := h
  rw [pool_of_get hget] at hpool
  cases m with
  | zero =>
    cases reals with
    | nil => simp at hpool
    | cons u reals => exact ⟨rfl, reals, List.tail_eq_of_cons_eq hpool⟩
  | succ m => simp [List.replicate_succ] at hpool

end Marked

end TaskMgr

namespace MainPc

/-- The markers that `JudgeCell::stop` has not pushed. Before the stop these are all of them, one
for each core. -/
def toPush (cores : ℕ) : MainPc → ℕ
  | .commands => cores
  | .cellStop n => n
  | _ => 0

/-- `JudgeCell::stop` has pushed its markers. -/
def pushed : MainPc → Bool
  | .commands | .cellStop (_ + 1) => false
  | _ => true

/-- Behind the loop of `JudgeCell::stop` no marker is to come. -/
theorem toPush_of_pushed {pc : MainPc} (h : pc.pushed = true) (cores : ℕ) :
    pc.toPush cores = 0 := by
  cases pc with
  | commands => exact Bool.noConfusion h
  | cellStop n =>
    cases n with
    | zero => rfl
    | succ n => exact Bool.noConfusion h
  | _ => rfl

end MainPc

namespace State

open TaskMgr (Marked markers)

/-- The cores that have not ended. -/
def alive (s : State) : ℕ := s.cores.countP fun c => c ≠ .exited

/-- `m` markers are in front of `m_tasks`, and there are enough of them: with those that are still
to be pushed, one for each core that is alive, and not more than there are cores. The permits for
them are there as long as the semaphore does not overflow. -/
structure CellInv (s : State) (m : ℕ) : Prop where
  marked : Marked s.tasks m
  alive : s.alive ≤ m + s.main.toPush s.cores.length
  total : m + s.main.toPush s.cores.length ≤ s.cores.length
  permits : s.cores.length ≤ ZSemaphore.maximum → m ≤ s.tasks.permits

variable {config : Config} {s s' : State} {m : ℕ}

/-- A core that moves was alive. -/
theorem alive_set {i : ℕ} {c : CorePc} (hc : s.cores[i]? = some c) (hne : c ≠ .exited)
    (c' : CorePc) : (s.cores.set i c').countP (fun c => c ≠ .exited) + 1 =
      s.alive + if c' ≠ .exited then 1 else 0 := by
  obtain ⟨hlt, hget⟩ := List.getElem?_eq_some_iff.mp hc
  have hpos : 0 < s.alive :=
    List.countP_pos_iff.mpr ⟨c, List.mem_of_getElem? hc, decide_eq_true hne⟩
  rw [List.countP_set hlt, hget, if_pos (decide_eq_true hne)]
  simp only [decide_eq_true_eq]
  show s.alive - 1 + _ + 1 = _
  omega

/-- A step that leaves the cores and `m_tasks` alone, and the markers that are to be pushed. -/
theorem CellInv.of_eq (h : CellInv s m) (hcores : s'.cores = s.cores) (htasks : s'.tasks = s.tasks)
    (hpush : s'.main.toPush s.cores.length = s.main.toPush s.cores.length) : CellInv s' m := by
  refine ⟨htasks ▸ h.marked, ?_, ?_, ?_⟩
  · rw [State.alive, hcores, hpush]
    exact h.alive
  · rw [hcores, hpush]
    exact h.total
  · rw [hcores, htasks]
    exact h.permits

/-- A core moves that goes on. -/
theorem CellInv.core (h : CellInv s m) {i : ℕ} {c c' : CorePc} (hc : s.cores[i]? = some c)
    (hne : c ≠ .exited) (hcores : s'.cores = s.cores.set i c') (htasks : s'.tasks = s.tasks)
    (hmain : s'.main = s.main) : CellInv s' m := by
  have halive := alive_set hc hne c'
  have hle := h.alive
  refine ⟨htasks ▸ h.marked, ?_, ?_, ?_⟩
  · rw [State.alive, hcores, hmain, List.length_set]
    split at halive <;> omega
  · rw [hcores, hmain, List.length_set]
    exact h.total
  · rw [hcores, htasks, List.length_set]
    exact h.permits

/-- A core ends with the marker that it takes. One marker, one permit and one living core are gone,
so the three numbers stay in step. -/
theorem CellInv.take_marker (h : CellInv s (m + 1)) {i : ℕ} (hc : s.cores[i]? = some .getting)
    {tasks : TaskMgr (Option TaskObj)} (hget : s.tasks.get = some (none, tasks))
    (hmarked : Marked tasks m) :
    CellInv { s with cores := s.cores.set i .exited, tasks } m := by
  -- one core less is alive
  have halive := alive_set hc CorePc.noConfusion .exited
  rw [if_neg (by simp), Nat.add_zero] at halive
  have hle := h.alive
  have htotal := h.total
  -- the marker taken is missing among the markers, as the core is among the living
  refine ⟨hmarked, ?_, ?_, ?_⟩
  · show List.countP _ (s.cores.set i .exited) ≤ m + s.main.toPush (s.cores.set i .exited).length
    rw [List.length_set]
    omega
  · show m + s.main.toPush (s.cores.set i .exited).length ≤ (s.cores.set i .exited).length
    rw [List.length_set]
    omega
  · show (s.cores.set i .exited).length ≤ _ → m ≤ tasks.permits
    rw [List.length_set]
    -- the permit goes with the marker
    intro hn
    have hpermits := h.permits hn
    rw [TaskMgr.permits_of_get hget] at hpermits
    omega

/-- A core takes a real task, so no marker is in front of it. -/
theorem CellInv.take_task (h : CellInv s 0) {i : ℕ} (hc : s.cores[i]? = some .getting)
    {t : TaskObj} {tasks : TaskMgr (Option TaskObj)} (hmarked : Marked tasks 0) :
    CellInv { s with
      cores := s.cores.set i (.judging t), tasks, taken := s.taken ++ [t] } 0 := by
  have halive := alive_set hc CorePc.noConfusion (.judging t)
  rw [if_pos (by simp)] at halive
  have hle := h.alive
  refine ⟨hmarked, ?_, ?_, fun _ => Nat.zero_le _⟩
  · show List.countP _ (s.cores.set i _) ≤ 0 + s.main.toPush (s.cores.set i _).length
    rw [List.length_set]
    omega
  · show 0 + s.main.toPush (s.cores.set i _).length ≤ (s.cores.set i _).length
    rw [List.length_set]
    exact h.total

/-- `JudgeCell::stop` pushes a marker. The permits reach as far as the semaphore does. -/
theorem CellInv.push (h : CellInv s m) {n : ℕ} (hpc : s.main = .cellStop (n + 1)) :
    CellInv { s with main := .cellStop n, tasks := s.tasks.addFront none } (m + 1) := by
  obtain ⟨hmarked, halive, htotal, hpermits⟩ := h
  rw [hpc] at halive htotal
  simp only [MainPc.toPush] at halive htotal
  refine ⟨hmarked.addFront, ?_, ?_, ?_⟩
  · show s.alive ≤ m + 1 + n
    omega
  · show m + 1 + n ≤ s.cores.length
    omega
  · intro hn
    have hle := hpermits hn
    show m + 1 ≤ ZSemaphore.push s.tasks.permits
    have hmax : s.cores.length ≤ ZSemaphore.maximum := hn
    unfold ZSemaphore.push
    split <;> omega

/-- Every step keeps the count. Only a core that takes a marker, and `main` when it pushes one,
change the number of markers. -/
theorem cellInv_step (h : CellInv s m) (a : Action) (hstep : step config s a = some s') :
    ∃ m', CellInv s' m' := by
  cases ha : a.party with
  | frontEnd =>
    obtain ⟨db, rfl⟩ := frontEnd_frame ha hstep
    exact ⟨m, h.of_eq rfl rfl rfl⟩
  | reader =>
    cases a with
    | readerCheck =>
      obtain ⟨-, rfl⟩ := of_readerCheck hstep
      exact ⟨m, h.of_eq rfl rfl rfl⟩
    | readerSelect answer =>
      obtain ⟨-, rfl | rfl | ⟨rows, -, -, rfl⟩⟩ := of_readerSelect hstep <;>
        exact ⟨m, h.of_eq rfl rfl rfl⟩
    | readerRow testData ok =>
      obtain ⟨row, rows, -, ⟨-, rfl⟩ | ⟨-, rfl⟩⟩ := of_readerRow hstep <;>
        exact ⟨m, h.of_eq rfl rfl rfl⟩
    | readerAdd =>
      obtain ⟨t, rows, -, rfl⟩ := of_readerAdd hstep
      -- a task joins behind the markers
      exact ⟨m, h.marked.add t, h.alive, h.total,
        fun hn => (h.permits hn).trans (s.tasks.permits_le_add _)⟩
    | readerRowsEnd =>
      obtain ⟨-, rfl⟩ := of_readerRowsEnd hstep
      exact ⟨m, h.of_eq rfl rfl rfl⟩
    | _ => cases ha
  | core =>
    cases a with
    | coreGet i =>
      obtain ⟨hpc, task?, tasks, hget, hs'⟩ := of_coreGet hstep
      cases task? with
      | none =>
        subst hs'
        obtain ⟨m', rfl, hmarked⟩ := h.marked.get_none hget
        exact ⟨m', h.take_marker hpc hget hmarked⟩
      | some t =>
        subst hs'
        obtain ⟨rfl, hmarked⟩ := h.marked.get_some hget
        exact ⟨0, h.take_task hpc hmarked⟩
    | coreFinish i env =>
      obtain ⟨t, hpc, rfl⟩ := of_coreFinish hstep
      exact ⟨m, h.core hpc CorePc.noConfusion rfl rfl rfl⟩
    | coreCleanUp i =>
      obtain ⟨t, ok, hpc, rfl⟩ := of_coreCleanUp hstep
      exact ⟨m, h.core hpc CorePc.noConfusion rfl rfl rfl⟩
    | _ => cases ha
  | writer =>
    obtain ⟨writer, finishTask, db, written, rfl⟩ := writer_frame ha hstep
    exact ⟨m, h.of_eq rfl rfl rfl⟩
  | main =>
    cases a with
    | mainExit =>
      obtain ⟨hpc, rfl⟩ := of_mainExit hstep
      exact ⟨m, h.of_eq rfl rfl (by rw [hpc]; rfl)⟩
    | mainPush =>
      obtain ⟨n, hpc, rfl⟩ := of_mainPush hstep
      exact ⟨m + 1, h.push hpc⟩
    | mainJoinCores =>
      obtain ⟨hpc, -, rfl⟩ := of_mainJoinCores hstep
      exact ⟨m, h.of_eq rfl rfl (by rw [hpc]; rfl)⟩
    | mainDbStop =>
      obtain ⟨hpc, rfl⟩ := of_mainDbStop hstep
      exact ⟨m, h.of_eq rfl rfl (by rw [hpc]; rfl)⟩
    | mainDbMarker =>
      obtain ⟨hpc, rfl⟩ := of_mainDbMarker hstep
      exact ⟨m, h.of_eq rfl rfl (by rw [hpc]; rfl)⟩
    | mainJoinReader =>
      obtain ⟨hpc, -, rfl⟩ := of_mainJoinReader hstep
      exact ⟨m, h.of_eq rfl rfl (by rw [hpc]; rfl)⟩
    | mainJoinWriter =>
      obtain ⟨hpc, -, rfl⟩ := of_mainJoinWriter hstep
      exact ⟨m, h.of_eq rfl rfl (by rw [hpc]; rfl)⟩
    | _ => cases ha

/-- The places of the cores, and the tasks that they have taken. A step changes the place of one
core at most, and a core that has ended does not move. -/
theorem core_step (a : Action) (hstep : step config s a = some s') :
    (s'.cores = s.cores ∧ s'.taken = s.taken) ∨
      ∃ i c c', s.cores[i]? = some c ∧ c ≠ .exited ∧ s'.cores = s.cores.set i c' ∧
        (s'.taken = s.taken ∨
          c = .getting ∧ ∃ t tasks, s.tasks.get = some (some t, tasks)) := by
  -- only `coreGet`, `coreFinish` and `coreCleanUp` move a core
  cases ha : a.party with
  | frontEnd =>
    obtain ⟨db, rfl⟩ := frontEnd_frame ha hstep
    exact .inl ⟨rfl, rfl⟩
  | reader =>
    obtain ⟨reader, nextAddr, db, tasks, added, rfl⟩ := reader_frame ha hstep
    exact .inl ⟨rfl, rfl⟩
  | core =>
    cases a with
    | coreGet i =>
      obtain ⟨hpc, task?, tasks, hget, hs'⟩ := of_coreGet hstep
      -- a stop marker ends the core
      cases task? with
      | none =>
        subst hs'
        exact .inr ⟨i, _, .exited, hpc, CorePc.noConfusion, rfl, .inl rfl⟩
      -- a task
      | some t =>
        subst hs'
        exact .inr ⟨i, _, .judging t, hpc, CorePc.noConfusion, rfl, .inr ⟨rfl, t, tasks, hget⟩⟩
    | coreFinish i env =>
      obtain ⟨t, hpc, rfl⟩ := of_coreFinish hstep
      exact .inr ⟨i, _, _, hpc, CorePc.noConfusion, rfl, .inl rfl⟩
    | coreCleanUp i =>
      obtain ⟨t, ok, hpc, rfl⟩ := of_coreCleanUp hstep
      exact .inr ⟨i, _, _, hpc, CorePc.noConfusion, rfl, .inl rfl⟩
    | _ => cases ha
  | writer =>
    obtain ⟨writer, finishTask, db, written, rfl⟩ := writer_frame ha hstep
    exact .inl ⟨rfl, rfl⟩
  | main =>
    obtain ⟨main, running, tasks, finishTask, rfl, htasks, hfinish⟩ := main_frame ha hstep
    exact .inl ⟨rfl, rfl⟩

/-- The markers are pushed once: only `main` changes its place, and it never goes back in front of
the push. -/
theorem pushed_step (a : Action) (h : s.main.pushed = true) (hstep : step config s a = some s') :
    s'.main.pushed = true := by
  -- nobody but `main` touches its place
  cases ha : a.party with
  | frontEnd =>
    obtain ⟨db, rfl⟩ := frontEnd_frame ha hstep
    exact h
  | reader =>
    obtain ⟨reader, nextAddr, db, tasks, added, rfl⟩ := reader_frame ha hstep
    exact h
  | core =>
    obtain ⟨i, c, c', tasks, taken, finishTask, reported, hc, hne, rfl⟩ := core_frame ha hstep
    exact h
  | writer =>
    obtain ⟨writer, finishTask, db, written, rfl⟩ := writer_frame ha hstep
    exact h
  | main =>
    -- the places before the push are excluded, those behind it stay behind it
    cases a with
    | mainExit =>
      obtain ⟨hpc, -⟩ := of_mainExit hstep
      rw [hpc] at h
      exact Bool.noConfusion h
    | mainPush =>
      obtain ⟨n, hpc, -⟩ := of_mainPush hstep
      rw [hpc] at h
      exact Bool.noConfusion h
    | mainJoinCores => rw [(of_mainJoinCores hstep).2.2]; rfl
    | mainDbStop => rw [(of_mainDbStop hstep).2]; rfl
    | mainDbMarker => rw [(of_mainDbMarker hstep).2]; rfl
    | mainJoinReader => rw [(of_mainJoinReader hstep).2.2]; rfl
    | mainJoinWriter => rw [(of_mainJoinWriter hstep).2.2]; rfl
    | _ => cases ha

/-! ### Behind the markers -/

/-- A core that has ended stays so. -/
theorem exited_step {i : ℕ} (h : s.cores[i]? = some .exited) (a : Action)
    (hstep : step config s a = some s') : s'.cores[i]? = some .exited := by
  rcases core_step a hstep with ⟨hcores, -⟩ | ⟨j, c, c', hc, hne, hcores, -⟩
  · rw [hcores]
    exact h
  · have hij : j ≠ i := by
      rintro rfl
      exact hne (Option.some.inj (hc.symm.trans h))
    rw [hcores, List.getElem?_set_ne hij]
    exact h

/-- While a core is alive, a marker is in front of `m_tasks`. -/
theorem CellInv.front (h : CellInv s m) (hpushed : s.main.pushed = true) {i : ℕ}
    (hc : s.cores[i]? = some .getting) {t? : Option TaskObj} {tasks : TaskMgr (Option TaskObj)}
    (hget : s.tasks.get = some (t?, tasks)) : t? = none := by
  cases t? with
  | none => rfl
  | some t =>
    -- otherwise there is no marker, and no core is alive
    obtain ⟨rfl, -⟩ := h.marked.get_some hget
    have halive := h.alive
    rw [MainPc.toPush_of_pushed hpushed, Nat.le_zero, State.alive, List.countP_eq_zero] at halive
    exact absurd (halive _ (List.mem_of_getElem? hc)) (by simp)

/-- No core takes a task once the markers are pushed. By induction on the run: what a core finds in
front is a marker. -/
theorem taken_run (h : ∃ m, CellInv s m) (hpushed : s.main.pushed = true) {actions : List Action}
    (hrun : run (step config) s actions = some s') : s'.taken = s.taken := by
  let Inv : State → Prop := fun s => (∃ m, CellInv s m) ∧ s.main.pushed = true
  have hstep : ∀ s a s', Inv s → step config s a = some s' → Inv s' ∧ s'.taken = s.taken := by
    rintro s a s' ⟨⟨m, h⟩, hpushed⟩ hstep
    refine ⟨⟨cellInv_step h a hstep, pushed_step a hpushed hstep⟩, ?_⟩
    rcases core_step a hstep with ⟨-, htaken⟩ | ⟨i, c, c', hc, -, -, htaken | ⟨rfl, t, q, hget⟩⟩
    · exact htaken
    · exact htaken
    · exact absurd (h.front hpushed hc hget) (by simp)
  have htrans : ∀ s m s' : State, m.taken = s.taken → s'.taken = m.taken → s'.taken = s.taken :=
    fun _ _ _ h h' => h'.trans h
  exact run_relation (R := fun s s' => s'.taken = s.taken) (fun _ => rfl) htrans hstep
    ⟨h, hpushed⟩ hrun

/-! ### What the stop reaches -/

/-- What holds in a state behind the loop of `JudgeCell::stop`, at the end of a run from the start:
no core waits for ever, and no task is taken any more. -/
structure StopReaches (config : Config) (db : Database) (cores : ℕ) (actions : List Action)
    (s : State) : Prop where
  /-- A marker is left for each core that has not ended. -/
  enough : s.alive ≤ markers s.tasks
  /-- `getTask` returns `NULL` at once. -/
  null : ∀ i : ℕ, s.cores[i]? = some CorePc.getting → ∃ tasks, s.tasks.get = some (none, tasks)
  /-- No task is started any more. -/
  noTask : ∀ after s', run (step config) s after = some s' → s'.taken = s.taken
  /-- A core that takes a marker takes nothing behind it. -/
  once : ∀ (before after : List Action) (i : ℕ) (m : State) (tasks : TaskMgr (Option TaskObj)),
    actions = before ++ .coreGet i :: after →
    run (step config) (start db cores) before = some m → m.tasks.get = some (none, tasks) →
    .coreGet i ∉ after

/-- A core that has ended takes nothing. -/
theorem coreGet_notMem {i : ℕ} (h : s.cores[i]? = some .exited) {actions : List Action}
    (hrun : run (step config) s actions = some s') : .coreGet i ∉ actions := by
  intro hmem
  obtain ⟨before, after, rfl⟩ := List.append_of_mem hmem
  obtain ⟨m, hm, hrest⟩ := run_append_eq_some.mp hrun
  obtain ⟨m', hget, -⟩ := run_cons_eq_some.mp hrest
  have hstep : ∀ s a s', True → s.cores[i]? = some CorePc.exited → step config s a = some s' →
      s'.cores[i]? = some CorePc.exited := fun s a s' _ h hstep => exited_step h a hstep
  have hexited := run_invariant hstep (fun _ _ => trivial) h hm
  obtain ⟨hpc, -⟩ := of_coreGet hget
  rw [hexited] at hpc
  simp only [Option.some.injEq, reduceCtorEq] at hpc

/-- At the start there is no marker, and one for each core is to be pushed. -/
theorem cellInv_start (db : Database) (cores : ℕ) : CellInv (start db cores) 0 := by
  have hlength : (start db cores).cores.length = cores := List.length_replicate
  refine ⟨⟨[], rfl⟩, ?_, ?_, fun _ => Nat.zero_le _⟩
  · rw [hlength]
    refine (List.countP_le_length).trans ?_
    rw [hlength]
    exact (Nat.zero_add cores).ge
  · rw [hlength]
    exact (Nat.zero_add cores).le

/-- The count along every run, by induction. -/
theorem cellInv_run {db : Database} {cores : ℕ} {actions : List Action}
    (hrun : run (step config) (start db cores) actions = some s) : ∃ m, CellInv s m := by
  have hstep : ∀ s a s', True → (∃ m, CellInv s m) → step config s a = some s' →
      ∃ m, CellInv s' m := by
    rintro s a s' - ⟨m, h⟩ hstep
    exact cellInv_step h a hstep
  have hinv := run_invariant hstep (fun _ _ => trivial) ⟨0, cellInv_start db cores⟩ hrun
  exact hinv

/-- No step changes the number of the cores. -/
theorem cores_length_run {db : Database} {cores : ℕ} {actions : List Action}
    (hrun : run (step config) (start db cores) actions = some s) : s.cores.length = cores := by
  have hstep : ∀ s a s', True → s.cores.length = cores → step config s a = some s' →
      s'.cores.length = cores := by
    intro s a s' _ h hstep
    rcases core_step a hstep with ⟨hcores, -⟩ | ⟨i, c, c', -, -, hcores, -⟩
    · rw [hcores]
      exact h
    · rw [hcores, List.length_set]
      exact h
  have hlength := run_invariant hstep (fun _ _ => trivial) List.length_replicate hrun
  exact hlength

/-- With a permit for each marker, the stop reaches every core. There are as many markers as living
cores, so a core that waits finds one, and no task is in front of it. -/
theorem stop_reaches {db : Database} {cores : ℕ} (hcores : cores ≤ ZSemaphore.maximum)
    {actions : List Action} (hrun : run (step config) (start db cores) actions = some s)
    (hpushed : s.main.pushed = true) : StopReaches config db cores actions s := by
  obtain ⟨m, h⟩ := cellInv_run hrun
  have halive := h.alive
  rw [MainPc.toPush_of_pushed hpushed, Nat.add_zero] at halive
  refine ⟨h.marked.markers_eq.symm ▸ halive, ?_, ?_, ?_⟩
  · intro i hc
    -- a core that waits is alive, so there is a marker, and a permit for it
    have hpos : 0 < s.alive :=
      List.countP_pos_iff.mpr ⟨_, List.mem_of_getElem? hc, by simp⟩
    have hpermits := h.permits ((cores_length_run hrun).symm ▸ hcores)
    obtain ⟨t?, tasks, hget⟩ := TaskMgr.exists_get (q := s.tasks) (by omega)
    obtain rfl := h.front hpushed hc hget
    exact ⟨tasks, hget⟩
  · intro after s' hafter
    exact taken_run ⟨m, h⟩ hpushed hafter
  · rintro before after i m tasks rfl hbefore hget
    obtain ⟨m', hm', hrest⟩ := run_append_eq_some.mp hrun
    obtain rfl : m = m' := Option.some.inj (hbefore.symm.trans hm')
    obtain ⟨ended, htake, hafter⟩ := run_cons_eq_some.mp hrest
    obtain ⟨hpc, t?, q, hget', hended⟩ := of_coreGet htake
    rw [hget, Option.some.injEq, Prod.mk.injEq] at hget'
    obtain ⟨rfl, rfl⟩ := hget'
    subst hended
    refine coreGet_notMem ?_ hafter
    exact List.getElem?_set_self (List.getElem?_eq_some_iff.mp hpc).1

/-! ### More cores than permits -/

/-- The loop of `JudgeCell::stop`, without a step of another thread. -/
theorem run_pushes (n : ℕ) (h : s.main = .cellStop n) :
    run (step config) s (List.replicate n .mainPush) =
      some { s with main := .cellStop 0, tasks := (fun q => q.addFront none)^[n] s.tasks } := by
  induction n generalizing s with
  | zero =>
    rw [List.replicate_zero, run_nil, Function.iterate_zero, id, ← h]
  | succ n ih =>
    have hpush : step config s .mainPush =
        some { s with main := .cellStop n, tasks := s.tasks.addFront none } := by
      show s.mainPush = _
      rw [mainPush, h]
    exact run_cons_eq_some.mpr ⟨_, hpush,
      ih (s := { s with main := .cellStop n, tasks := s.tasks.addFront none }) rfl⟩

/-- The markers of an empty queue. By induction on their number. -/
theorem iterate_addFront (n : ℕ) :
    Marked ((fun q : TaskMgr (Option TaskObj) => q.addFront none)^[n] {}) n ∧
      ((fun q : TaskMgr (Option TaskObj) => q.addFront none)^[n] {}).permits =
        min n ZSemaphore.maximum := by
  induction n with
  | zero => exact ⟨⟨[], rfl⟩, rfl⟩
  | succ n ih =>
    rw [Function.iterate_succ_apply']
    refine ⟨ih.1.addFront, ?_⟩
    show ZSemaphore.push _ = _
    rw [ih.2, ZSemaphore.push]
    split <;> omega

/-- `k` cores in a row end, each with a marker. By induction on `k`. -/
theorem run_takes (config : Config) (k ended waiting : ℕ) (hcores : s.cores =
      List.replicate ended .exited ++ List.replicate (k + waiting) .getting)
    (hmarked : Marked s.tasks m) (hm : k ≤ m) (hpermits : k ≤ s.tasks.permits) :
    ∃ s', run (step config) s ((List.range' ended k).map .coreGet) = some s' ∧
      s'.main = s.main ∧ s'.tasks.permits + k = s.tasks.permits ∧
      s'.cores = List.replicate (ended + k) .exited ++ List.replicate waiting .getting := by
  -- one core after the other takes one marker
  induction k generalizing s m ended with
  | zero =>
    rw [Nat.zero_add] at hcores
    exact ⟨s, rfl, rfl, rfl, hcores⟩
  | succ k ih =>
    -- the next core still waits
    have hcore : s.cores[ended]? = some .getting := by
      rw [hcores, List.getElem?_append_right (by simp), List.length_replicate, Nat.sub_self,
        Nat.succ_add, List.replicate_succ, List.getElem?_cons_zero]
    obtain ⟨t?, tasks, hget⟩ := TaskMgr.exists_get (q := s.tasks) (by omega)
    -- what it takes is a marker, since there are only markers in front
    have hnone : t? = none := by
      cases t? with
      | none => rfl
      | some t => exact absurd (hmarked.get_some hget).1 (by omega)
    subst hnone
    obtain ⟨m', rfl, hmarked'⟩ := hmarked.get_none hget
    have htake : step config s (.coreGet ended) =
        some { s with cores := s.cores.set ended .exited, tasks } := by
      show s.coreGet ended = _
      rw [coreGet, hcore, hget]
    -- it joins those that have ended
    have hset : s.cores.set ended .exited =
        List.replicate (ended + 1) .exited ++ List.replicate (k + waiting) .getting := by
      rw [hcores, List.set_append_right _ _ (by simp), List.length_replicate, Nat.sub_self,
        Nat.succ_add, List.replicate_succ, List.set_cons_zero, List.replicate_succ',
        List.append_assoc]
      rfl
    have hspent := TaskMgr.permits_of_get hget
    obtain ⟨s', hrun, hmain, hleft, hcores'⟩ := ih (ended + 1)
      (s := { s with cores := s.cores.set ended .exited, tasks }) hset hmarked' (by omega)
      (by show k ≤ tasks.permits; omega)
    refine ⟨s', ?_, hmain, ?_, ?_⟩
    · rw [List.range'_succ, List.map_cons]
      exact run_cons_eq_some.mpr ⟨_, htake, hrun⟩
    · have hleft : s'.tasks.permits + k = tasks.permits := hleft
      omega
    · rw [hcores']
      congr 2
      omega

/-- A database without rows. -/
def emptyDatabase : Database where
  solution := []
  problem := []
  users := []
  solution_nodup := List.nodup_nil
  problem_nodup := List.nodup_nil

/-- With more cores than permits there is a run in which a core waits for ever: the markers are
pushed while all cores wait, and then the cores take them. -/
theorem exists_waiting (config : Config) (cores : ℕ) (hcores : ZSemaphore.maximum < cores) :
    ∃ actions s, run (step config) (start emptyDatabase cores) actions = some s ∧
      s.main = .cellStop 0 ∧ s.cores[ZSemaphore.maximum]? = some .getting ∧
      s.tasks.get = none := by
  -- there are more cores than a semaphore has permits
  obtain ⟨waiting, rfl⟩ := Nat.exists_eq_add_of_le hcores.le
  let pushing : State :=
    { start emptyDatabase (ZSemaphore.maximum + waiting) with
      main := .cellStop (ZSemaphore.maximum + waiting) }
  have hexit : step config (start emptyDatabase (ZSemaphore.maximum + waiting)) .mainExit =
      some pushing := by
    show (start emptyDatabase (ZSemaphore.maximum + waiting)).mainExit = _
    simp only [mainExit, start, List.length_replicate, pushing]
  -- all markers are in the queue, but the permits stop at the maximum
  obtain ⟨hmarked, hpermits⟩ := iterate_addFront (ZSemaphore.maximum + waiting)
  rw [Nat.min_eq_right (Nat.le_add_right _ _)] at hpermits
  obtain ⟨s, hrun, hmain, hleft, hended⟩ := run_takes config ZSemaphore.maximum 0 waiting
    (s := { pushing with
      main := .cellStop 0
      tasks := (fun q => q.addFront none)^[ZSemaphore.maximum + waiting] {} })
    rfl hmarked (Nat.le_add_right _ _) hpermits.ge
  have hleft : s.tasks.permits + ZSemaphore.maximum = ZSemaphore.maximum := hleft.trans hpermits
  -- `main` pushes its markers, and the first cores take as many as there are permits
  refine ⟨.mainExit :: (List.replicate (ZSemaphore.maximum + waiting) .mainPush ++
    (List.range' 0 ZSemaphore.maximum).map .coreGet), s, ?_, hmain, ?_, ?_⟩
  · refine run_cons_eq_some.mpr ⟨pushing, hexit, ?_⟩
    exact run_append_eq_some.mpr ⟨_, run_pushes _ rfl, hrun⟩
  -- the next core still waits
  · rw [hended, List.getElem?_append_right (by simp), List.length_replicate, Nat.zero_add,
      Nat.sub_self, List.getElem?_replicate, if_pos (by omega)]
  -- and there is no permit left for it
  · cases hget : s.tasks.get with
    | none => rfl
    | some r =>
      obtain ⟨task, q'⟩ := r
      have hspent := TaskMgr.permits_of_get hget
      omega

/-- `JudgeCell::stop` reaches every core in every run exactly when there are at most 32767 cores. It
pushes one marker for each core, and the semaphore of the queue does not count further than that. -/
theorem stop_reaches_iff (config : Config) (cores : ℕ) :
    (∀ (db : Database) (actions : List Action) (s : State),
        run (step config) (start db cores) actions = some s → s.main.pushed = true →
        StopReaches config db cores actions s) ↔
      cores ≤ ZSemaphore.maximum := by
  constructor
  · intro hall
    by_contra hnot
    obtain ⟨actions, s, hrun, hmain, hcore, hwaits⟩ :=
      exists_waiting config cores (Nat.lt_of_not_le hnot)
    have hreaches := hall emptyDatabase actions s hrun (by rw [hmain]; rfl)
    obtain ⟨tasks, hget⟩ := hreaches.null _ hcore
    rw [hwaits] at hget
    simp only [reduceCtorEq] at hget
  · intro hcores db actions s hrun hpushed
    exact stop_reaches hcores hrun hpushed

/-- With 32768 cores the last one waits for ever. All markers are in the queue, but one of them has
no permit. -/
theorem stop_misses_core :
    ¬ ∀ (config : Config) (db : Database) (cores : ℕ) (actions : List Action) (s : State),
      run (step config) (start db cores) actions = some s → s.main.pushed = true →
      StopReaches config db cores actions s := by
  intro hall
  obtain ⟨actions, s, hrun, hmain, hcore, hwaits⟩ := exists_waiting {} 32768 (by decide)
  have hreaches := hall {} emptyDatabase 32768 actions s hrun (by rw [hmain]; rfl)
  obtain ⟨tasks, hget⟩ := hreaches.null _ hcore
  rw [hwaits] at hget
  simp only [reduceCtorEq] at hget

end State

end OnlineJudger
