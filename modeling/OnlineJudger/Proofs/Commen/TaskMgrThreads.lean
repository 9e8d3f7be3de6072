import OnlineJudger.Commen.TaskMgrThreads
import OnlineJudger.Lib.Slots
import Mathlib.Algebra.Order.BigOperators.Group.List
import Mathlib.Algebra.Order.Group.Nat

/-!
# `OnlineJudger.Proofs.Commen.TaskMgrThreads`: the queue refines an atomic deque

A call changes the list while it holds the lock, so the list is what an atomic deque holds to
which the calls are applied in the order in which they took the lock. `Inv` says so for the free
lock and for each place of the thread that holds it (`InLock`).

`get` takes its permit before the lock. `credit` counts the items that are spoken for: one for
each `get` between its permit and its `pop_front`, and one for each `add` that has pushed its
item and not released the semaphore. With the permits they are never more than the items, so
`front` and `pop_front` find one (`deque_refined`).

A release fails at the maximum of the semaphore. From then on there are more items than permits
and credits. `permits_eq_iff` says that this is the only way in which permits get lost.
-/

set_option autoImplicit false

namespace OnlineJudger.TaskMgr

open Lib

variable {Task : Type}

namespace ThreadPc

/-- The thread holds the lock. -/
def holder : ThreadPc Task → Option (ThreadPc Task)
  | .addList front task => some (.addList front task)
  | .addRelease => some .addRelease
  | .addUnlock => some .addUnlock
  | .getFront => some .getFront
  | .getPop task => some (.getPop task)
  | .getUnlock task => some (.getUnlock task)
  | _ => none

/-- The items that are spoken for. -/
def credit : ThreadPc Task → ℕ
  | .addRelease | .getLock | .getFront | .getPop _ => 1
  | _ => 0

/-- In no `add`, and in no `get` between its permit and its `pop_front`. -/
def quiet : ThreadPc Task → Bool
  | .idle | .getAcquire | .getUnlock _ => true
  | _ => false

/-- The first place of a call. -/
def begins : ThreadPc Task → Bool
  | .addLock _ _ | .getAcquire => true
  | _ => false

end ThreadPc

namespace Threads

variable {s s' : Threads Task}

/-! ### What a step does -/

/-- A thread moves from one place to the next, and the shared part of the state changes. -/
inductive Move (s : Threads Task) : ThreadPc Task → ThreadPc Task → Threads Task → Prop where
  | call {pc : ThreadPc Task} (hpc : pc.begins = true) : Move s .idle pc s
  | addLock {front : Bool} {task : Task} (hfree : s.locked = false) :
      Move s (.addLock front task) (.addList front task)
        { s with locked := true, calls := s.calls ++ [pushOp front task] }
  | addList {front : Bool} {task : Task} :
      Move s (.addList front task) .addRelease { s with pool := pushList front task s.pool }
  | addRelease : Move s .addRelease .addUnlock { s with permits := ZSemaphore.push s.permits }
  | addUnlock : Move s .addUnlock .idle { s with locked := false }
  | getAcquire {permits : ℕ} (hpermits : s.permits = permits + 1) :
      Move s .getAcquire .getLock { s with permits }
  | getLock (hfree : s.locked = false) :
      Move s .getLock .getFront { s with locked := true, calls := s.calls ++ [.popFront] }
  | getFront {task : Task} {pool : List Task} (hpool : s.pool = task :: pool) :
      Move s .getFront (.getPop task) s
  | getPop {task front : Task} {pool : List Task} (hpool : s.pool = front :: pool) :
      Move s (.getPop task) (.getUnlock task) { s with pool }
  | getUnlock {task : Task} : Move s (.getUnlock task) .idle
      { s with locked := false, returned := s.returned ++ [task] }
  | frontEmpty (hpool : s.pool = []) : Move s .getFront .undefined s
  | popEmpty {task : Task} (hpool : s.pool = []) : Move s (.getPop task) .undefined s

/-- A call begins in a thread that is in none. -/
theorem of_call {i : ℕ} {pc : ThreadPc Task} (h : s.call i pc = some s') :
    s.threads[i]? = some .idle ∧ s' = { s with threads := s.threads.set i pc } := by
  unfold call at h
  split at h
  · next hpc => exact ⟨hpc, (Option.some.inj h).symm⟩
  · simp only [reduceCtorEq] at h

/-- The next step of a call is a move of its thread. The other results below go by the cases of
`Move`, in which the rest of the threads is left alone. -/
theorem of_next {i : ℕ} (h : s.next i = some s') :
    ∃ c c' u, s.threads[i]? = some c ∧ Move s c c' u ∧
      s' = { u with threads := s.threads.set i c' } := by
  unfold next at h
  -- one case for each place of the thread, in the order of `next`
  split at h
  · next front task hpc =>
    split at h
    -- the lock is taken
    · simp only [reduceCtorEq] at h
    · next hfree =>
      exact ⟨_, _, _, hpc, .addLock (Bool.eq_false_iff.mpr hfree), (Option.some.inj h).symm⟩
  · next front task hpc => exact ⟨_, _, _, hpc, .addList, (Option.some.inj h).symm⟩
  · next hpc => exact ⟨_, _, _, hpc, .addRelease, (Option.some.inj h).symm⟩
  · next hpc => exact ⟨_, _, _, hpc, .addUnlock, (Option.some.inj h).symm⟩
  · next hpc =>
    split at h
    -- no permit is left
    · simp only [reduceCtorEq] at h
    · next permits hpermits =>
      exact ⟨_, _, _, hpc, .getAcquire hpermits, (Option.some.inj h).symm⟩
  · next hpc =>
    split at h
    -- the lock is taken
    · simp only [reduceCtorEq] at h
    · next hfree =>
      exact ⟨_, _, _, hpc, .getLock (Bool.eq_false_iff.mpr hfree), (Option.some.inj h).symm⟩
  · next hpc =>
    split at h
    · next hpool => exact ⟨_, _, _, hpc, .frontEmpty hpool, (Option.some.inj h).symm⟩
    · next task pool hpool => exact ⟨_, _, _, hpc, .getFront hpool, (Option.some.inj h).symm⟩
  · next task hpc =>
    split at h
    · next hpool => exact ⟨_, _, _, hpc, .popEmpty hpool, (Option.some.inj h).symm⟩
    · next front pool hpool => exact ⟨_, _, _, hpc, .getPop hpool, (Option.some.inj h).symm⟩
  · next task hpc => exact ⟨_, _, _, hpc, .getUnlock, (Option.some.inj h).symm⟩
  · simp only [reduceCtorEq] at h

/-- Every step is a move of one thread. The case split of all step lemmas below. -/
theorem of_step {a : ThreadAction Task} (h : s.step a = some s') :
    ∃ c c' u, s.threads[a.thread]? = some c ∧ Move s c c' u ∧
      s' = { u with threads := s.threads.set a.thread c' } := by
  cases a with
  | callAdd i task =>
    obtain ⟨hpc, hs'⟩ := of_call h
    exact ⟨_, _, _, hpc, .call rfl, hs'⟩
  | callAddFront i task =>
    obtain ⟨hpc, hs'⟩ := of_call h
    exact ⟨_, _, _, hpc, .call rfl, hs'⟩
  | callGet i =>
    obtain ⟨hpc, hs'⟩ := of_call h
    exact ⟨_, _, _, hpc, .call rfl, hs'⟩
  | next i => exact of_next h

/-! ### Permits and credits -/

/-- The items that are spoken for. -/
def credits (s : Threads Task) : ℕ := (s.threads.map ThreadPc.credit).sum

/-- One thread moves, and its credit changes with it. -/
theorem credits_set {i : ℕ} {c : ThreadPc Task} (hc : s.threads[i]? = some c)
    (c' : ThreadPc Task) :
    ((s.threads.set i c').map ThreadPc.credit).sum + c.credit = s.credits + c'.credit :=
  sum_map_set ThreadPc.credit hc c'

/-- The credit of one thread is among them. -/
theorem credit_le_credits {i : ℕ} {c : ThreadPc Task} (hc : s.threads[i]? = some c) :
    c.credit ≤ s.credits :=
  List.single_le_sum (fun _ _ => Nat.zero_le _) _
    (List.mem_map_of_mem (List.mem_of_getElem? hc))

/-- `lost` items in the list have no permit, and nobody comes for them. -/
def Lost (s : Threads Task) (lost : ℕ) : Prop :=
  s.pool.length = s.permits + s.credits + lost

/-- A thread that is about to read the front finds an item. -/
theorem Lost.pool_ne_nil {lost : ℕ} (h : Lost s lost) {i : ℕ} {c : ThreadPc Task}
    (hc : s.threads[i]? = some c) (hcredit : c.credit = 1) : s.pool ≠ [] := by
  intro hnil
  have hle := credit_le_credits hc
  unfold Lost at h
  rw [hnil, List.length_nil] at h
  omega

/-- One item more, at either end. -/
theorem length_pushList (front : Bool) (task : Task) (pool : List Task) :
    (pushList front task pool).length = pool.length + 1 := by
  cases front with
  | false => exact List.length_append
  | true => rfl

/-- At the beginning of a call nothing is spoken for. -/
theorem credit_of_begins {c : ThreadPc Task} (h : c.begins = true) : c.credit = 0 := by
  cases c with
  | addLock _ _ => rfl
  | getAcquire => rfl
  | _ => simp only [ThreadPc.begins, Bool.false_eq_true] at h

/-- If the thread is about to release the semaphore, the release does not fail. -/
def ReleaseSucceeds (s : Threads Task) (a : ThreadAction Task) : Prop :=
  s.threads[a.thread]? = some .addRelease → s.permits < ZSemaphore.maximum

/-- Only a release that fails loses an item. Any other step moves a unit between the queue, the
permits and the thread that has it in hand. -/
theorem Lost.step {lost : ℕ} (h : Lost s lost) {a : ThreadAction Task}
    (hrelease : ReleaseSucceeds s a) (hstep : s.step a = some s') : Lost s' lost := by
  obtain ⟨c, c', u, hc, hmove, rfl⟩ := of_step hstep
  have hset := credits_set hc c'
  have hle := credit_le_credits hc
  have hne := h.pool_ne_nil hc
  unfold Lost credits at *
  -- each case moves one unit between the queue, the permits and the threads
  cases hmove with
  | call hpc =>
    rw [credit_of_begins hpc] at hset
    simp only [ThreadPc.credit] at hset ⊢
    omega
  | addList =>
    simp only [ThreadPc.credit, length_pushList] at hset ⊢
    omega
  | addRelease =>
    simp only [ThreadPc.credit, ZSemaphore.push, if_pos (hrelease hc)] at hset hle ⊢
    omega
  | getAcquire hpermits =>
    simp only [ThreadPc.credit] at hset ⊢
    omega
  | getPop hpool =>
    rw [hpool, List.length_cons] at h
    simp only [ThreadPc.credit] at hset hle ⊢
    omega
  -- a permit in hand means a queue that is not empty
  | frontEmpty hpool => exact absurd hpool (hne rfl)
  | popEmpty hpool => exact absurd hpool (hne rfl)
  | _ =>
    simp only [ThreadPc.credit] at hset ⊢
    omega

/-- And such a release loses one. -/
theorem Lost.step_of_fail {lost : ℕ} (h : Lost s lost) {a : ThreadAction Task}
    (hrelease : ¬ReleaseSucceeds s a) (hstep : s.step a = some s') : Lost s' (lost + 1) := by
  obtain ⟨hthread, hfull⟩ := Classical.not_imp.mp hrelease
  obtain ⟨c, c', u, hc, hmove, rfl⟩ := of_step hstep
  have hset := credits_set hc c'
  have hle := credit_le_credits hc
  rw [hthread, Option.some.injEq] at hc
  subst hc
  unfold Lost credits at *
  cases hmove with
  | addRelease =>
    simp only [ThreadPc.credit, ZSemaphore.push, if_neg hfull] at hset hle ⊢
    omega

/-- What is lost stays lost. By induction on the run. -/
theorem Lost.run {lost : ℕ} (h : Lost s lost) {actions : List (ThreadAction Task)}
    (hrun : Lib.run Threads.step s actions = some s') : ∃ lost', lost ≤ lost' ∧ Lost s' lost' := by
  let Inv : Threads Task → Prop := fun s => ∃ lost', lost ≤ lost' ∧ Lost s lost'
  have hstep : ∀ s a s', True → Inv s → Threads.step s a = some s' → Inv s' := by
    rintro s a s' - ⟨n, hle, hn⟩ ha
    by_cases hrelease : ReleaseSucceeds s a
    · exact ⟨n, hle, hn.step hrelease ha⟩
    · exact ⟨n + 1, Nat.le_succ_of_le hle, hn.step_of_fail hrelease ha⟩
  have hinv : Inv s' := run_invariant hstep (fun _ _ => trivial) ⟨lost, Nat.le_refl lost, h⟩ hrun
  exact hinv

/-- At the start no thread is in a call. -/
theorem credits_start (n : ℕ) : (start Task n).credits = 0 := by
  unfold credits start
  rw [List.map_replicate, List.sum_replicate]
  exact Nat.mul_zero n

/-- So nothing is lost. -/
theorem lost_start (n : ℕ) : Lost (start Task n) 0 := by
  unfold Lost
  rw [credits_start]
  rfl

/-! ### Permits and items of a quiet queue -/

/-- In a quiet queue nothing is spoken for. -/
theorem credits_of_quiet (h : ∀ c ∈ s.threads, c.quiet = true) : s.credits = 0 := by
  refine List.sum_eq_zero ?_
  intro n hn
  obtain ⟨c, hc, rfl⟩ := List.mem_map.mp hn
  have hquiet := h c hc
  cases c with
  | idle | getAcquire | getUnlock _ => rfl
  | _ => simp only [ThreadPc.quiet, Bool.false_eq_true] at hquiet

/-- In a quiet queue there are as many permits as items, and no `get` waits although there is an
item, exactly when no release has failed. A release fails when the semaphore is at its maximum, and
`add` does not look at its result. The run is any interleaving of the single steps of any number of
threads. -/
theorem permits_eq_iff {n : ℕ} {actions : List (ThreadAction Task)}
    (hrun : Lib.run step (start Task n) actions = some s)
    (hquiet : ∀ c ∈ s.threads, c.quiet = true) :
    (s.permits = s.pool.length ∧
        ∀ i, s.threads[i]? = some .getAcquire → s.pool ≠ [] → (s.next i).isSome = true) ↔
      Along step ReleaseSucceeds (start Task n) actions := by
  have hcredits := credits_of_quiet hquiet
  constructor
  · intro h
    -- a failed release loses an item, and no later step finds it again
    by_contra hnot
    obtain ⟨before, a, after, m, rfl, hbefore, hfail⟩ := exists_of_not_along hrun hnot
    rw [run_append_eq_some] at hrun
    obtain ⟨m', hm', hrun⟩ := hrun
    obtain rfl := Option.some.inj (hm'.symm.trans hbefore)
    obtain ⟨m₁, hm₁, hrun⟩ := run_cons_eq_some.mp hrun
    obtain ⟨lost, -, hlost⟩ := (lost_start n).run hbefore
    obtain ⟨lost', hle, hlost'⟩ := (hlost.step_of_fail hfail hm₁).run hrun
    unfold Lost at hlost'
    omega
  · intro halong
    let Inv : Threads Task → Prop := fun s => Lost s 0
    have hinv : ∀ s a s', ReleaseSucceeds s a → Inv s → step s a = some s' → Inv s' :=
      fun _ _ _ hrelease h hstep => h.step hrelease hstep
    have hend := run_invariant_along hinv halong (lost_start n) hrun
    have hlost : s.pool.length = s.permits + s.credits + 0 := hend
    refine ⟨by omega, ?_⟩
    intro i hi hpool
    have hpos := List.length_pos_iff.mpr hpool
    obtain ⟨permits, hpermits⟩ := Nat.exists_eq_succ_of_ne_zero (show s.permits ≠ 0 by omega)
    unfold next
    rw [hi]
    simp only [hpermits, Option.isSome_some]

/-- Two threads, and one `get` that has ended. No release is near the maximum, so the queue is quiet
with equal numbers. -/
theorem permits_eq_iff_two :
    ∃ s, Lib.run step (start ℕ 2)
        [.callGet 1, .callAdd 0 7, .next 0, .next 0, .next 0, .next 0, .next 1, .next 1, .next 1,
          .next 1, .next 1] = some s ∧
      ((s.permits = s.pool.length ∧
          ∀ i, s.threads[i]? = some .getAcquire → s.pool ≠ [] → (s.next i).isSome = true) ↔
        Along step ReleaseSucceeds (start ℕ 2)
          [.callGet 1, .callAdd 0 7, .next 0, .next 0, .next 0, .next 0, .next 1, .next 1, .next 1,
            .next 1, .next 1]) := by
  have hquiet : ∀ c ∈ List.replicate 2 (ThreadPc.idle : ThreadPc ℕ), c.quiet = true := by decide
  exact ⟨_, rfl, permits_eq_iff rfl hquiet⟩

/-- One thread calls `add` again and again. -/
def addCalls {Task : Type} (task : Task) (n : ℕ) : List (ThreadAction Task) :=
  (List.replicate n [.callAdd 0 task, .next 0, .next 0, .next 0, .next 0]).flatten

/-- One thread calls `get` again and again. -/
def getCalls (Task : Type) (n : ℕ) : List (ThreadAction Task) :=
  (List.replicate n [.callGet 0, .next 0, .next 0, .next 0, .next 0, .next 0]).flatten

/-- Each `add` puts an item into the queue, and a permit up to the maximum. By induction on the
calls. -/
theorem run_addCalls (task : Task) (n : ℕ) :
    ∃ s, Lib.run step (start Task 1) (addCalls task n) = some s ∧ s.threads = [.idle] ∧
      s.locked = false ∧ s.pool.length = n ∧ s.permits = min n ZSemaphore.maximum := by
  -- one more call of `add` at a time, with the lock free again behind each
  induction n with
  | zero => exact ⟨_, rfl, rfl, rfl, rfl, rfl⟩
  | succ n ih =>
    obtain ⟨s, hrun, hthreads, hlocked, hpool, hpermits⟩ := ih
    obtain ⟨pool, locked, permits, threads, calls, returned⟩ := s
    obtain rfl : threads = [.idle] := hthreads
    obtain rfl : locked = false := hlocked
    unfold addCalls at hrun ⊢
    rw [List.replicate_succ', List.flatten_append]
    refine ⟨_, run_append_eq_some.mpr ⟨_, hrun, rfl⟩, rfl, rfl, ?_, ?_⟩
    -- the queue is longer by the task
    · show (pool ++ [task]).length = n + 1
      rw [List.length_append, hpool, List.length_singleton]
    -- the permits stop at the maximum
    · show ZSemaphore.push permits = min (n + 1) ZSemaphore.maximum
      obtain rfl : permits = min n ZSemaphore.maximum := hpermits
      unfold ZSemaphore.push
      split <;> omega

/-- Each `get` takes an item and a permit. By induction on the calls. -/
theorem run_getCalls {m : Threads Task} (n : ℕ) (hthreads : m.threads = [.idle])
    (hlocked : m.locked = false) (hpermits : n ≤ m.permits) (hpool : m.permits ≤ m.pool.length) :
    ∃ s, Lib.run step m (getCalls Task n) = some s ∧ s.threads = [.idle] ∧ s.locked = false ∧
      s.pool.length + n = m.pool.length ∧ s.permits + n = m.permits := by
  -- one more call of `get` at a time
  induction n with
  | zero => exact ⟨m, rfl, hthreads, hlocked, rfl, rfl⟩
  | succ n ih =>
    obtain ⟨s, hrun, hthreads, hlocked, hpool', hpermits'⟩ := ih (Nat.le_of_succ_le hpermits)
    obtain ⟨pool, locked, permits, threads, calls, returned⟩ := s
    obtain rfl : threads = [.idle] := hthreads
    obtain rfl : locked = false := hlocked
    simp only at hpool' hpermits'
    -- there is a permit to take
    obtain ⟨k, rfl⟩ := Nat.exists_eq_succ_of_ne_zero (show permits ≠ 0 by omega)
    cases pool with
    | nil =>
      rw [List.length_nil] at hpool'
      omega
    | cons task pool =>
      rw [List.length_cons] at hpool'
      unfold getCalls at hrun ⊢
      rw [List.replicate_succ', List.flatten_append]
      refine ⟨_, run_append_eq_some.mpr ⟨_, hrun, rfl⟩, rfl, rfl, ?_, ?_⟩
      · show pool.length + (n + 1) = m.pool.length
        omega
      · show k + (n + 1) = m.permits
        omega

/-- One item too many: the last `add` gives no permit, and the `get` for its item waits. The run is
built by induction, since it has more than sixty thousand calls. -/
theorem item_stranded :
    ∃ s, Lib.run step (start ℕ 1) (addCalls 7 32768 ++ (getCalls ℕ 32767 ++ [.callGet 0])) =
        some s ∧ (∀ c ∈ s.threads, c.quiet = true) ∧ s.threads[0]? = some .getAcquire ∧
      s.permits ≠ s.pool.length ∧ s.pool ≠ [] ∧ s.next 0 = none := by
  -- 32768 tasks are put in, and the last release fails
  obtain ⟨m, hrun, hthreads, hlocked, hpool, hpermits⟩ := run_addCalls 7 32768
  have hmax : min 32768 ZSemaphore.maximum = 32767 := rfl
  rw [hmax] at hpermits
  -- 32767 are taken out with the permits that there are
  obtain ⟨m', hrun', hthreads', -, hpool', hpermits'⟩ :=
    run_getCalls 32767 hthreads hlocked hpermits.ge (by omega)
  obtain ⟨pool, locked, permits, threads, calls, returned⟩ := m'
  obtain rfl : threads = [.idle] := hthreads'
  simp only at hpool' hpermits'
  obtain rfl : permits = 0 := by omega
  have hlength : pool.length = 1 := by omega
  refine ⟨_, run_append_eq_some.mpr ⟨m, hrun, run_append_eq_some.mpr ⟨_, hrun', rfl⟩⟩, ?_, rfl,
    ?_, ?_, rfl⟩
  -- the only thread waits for a permit
  · intro c hc
    obtain rfl := List.mem_singleton.mp hc
    rfl
  -- one task, no permit
  · show 0 ≠ pool.length
    omega
  · exact List.ne_nil_of_length_pos (show 0 < pool.length by omega)

/-! ### The lock -/

/-- The threads that hold the lock. -/
def holders (s : Threads Task) : Multiset (ThreadPc Task) :=
  (s.threads.filterMap ThreadPc.holder : List (ThreadPc Task))

/-- The calls lead an atomic deque to the list and to what was returned. -/
def Serial (s : Threads Task) (calls : List (Deque.Op Task)) (returned : List Task) : Prop :=
  Lib.run Deque.step {} calls = some ⟨s.pool, returned⟩

/-- What the thread that holds the lock has done of the last call. -/
def InLock (s : Threads Task) : ThreadPc Task → Prop
  | .addList front task => ∃ calls, s.calls = calls ++ [pushOp front task] ∧
      Serial s calls s.returned
  | .addRelease | .addUnlock => Serial s s.calls s.returned
  | .getFront => ∃ calls, s.calls = calls ++ [.popFront] ∧ Serial s calls s.returned
  | .getPop task => ∃ calls, s.calls = calls ++ [.popFront] ∧ Serial s calls s.returned ∧
      s.pool.head? = some task
  | .getUnlock task => Serial s s.calls (s.returned ++ [task])
  | _ => False

/-- The lock is free, or one thread holds it. -/
inductive Locking (s : Threads Task) : Prop where
  | free (hfree : s.locked = false) (hnone : holders s = 0) (h : Serial s s.calls s.returned)
  | held (pc : ThreadPc Task) (hlocked : s.locked = true) (hone : holders s = {pc})
      (h : InLock s pc)

/-- What holds in every reachable state: the account of the permits, the lock, and that no thread
has read an empty list. -/
structure Inv (s : Threads Task) : Prop where
  lost : ∃ lost, Lost s lost
  locking : Locking s
  defined : .undefined ∉ s.threads

/-- One thread moves, and it may take the lock or give it back. -/
theorem holders_set {i : ℕ} {c : ThreadPc Task} (hc : s.threads[i]? = some c)
    (c' : ThreadPc Task) :
    (((s.threads.set i c').filterMap ThreadPc.holder : List (ThreadPc Task)) :
        Multiset (ThreadPc Task)) + c.holder.toList = holders s + c'.holder.toList :=
  coe_filterMap_set ThreadPc.holder hc c'

/-- A thread that holds the lock is the one. -/
theorem Locking.of_holder (h : Locking s) {i : ℕ} {c : ThreadPc Task}
    (hc : s.threads[i]? = some c) (hholder : c.holder = some c) :
    s.locked = true ∧ holders s = {c} ∧ InLock s c := by
  have hmem : c ∈ holders s :=
    Multiset.mem_coe.mpr (List.mem_filterMap.mpr ⟨c, List.mem_of_getElem? hc, hholder⟩)
  cases h with
  | free _ hnone _ =>
    rw [hnone] at hmem
    exact absurd hmem (Multiset.notMem_zero c)
  | held pc hlocked hone h =>
    rw [hone, Multiset.mem_singleton] at hmem
    subst hmem
    exact ⟨hlocked, hone, h⟩

/-- With a free lock nobody holds it, and the list is the result of the calls. -/
theorem Locking.of_free (h : Locking s) (hfree : s.locked = false) :
    holders s = 0 ∧ Serial s s.calls s.returned := by
  cases h with
  | free _ hnone h => exact ⟨hnone, h⟩
  | held _ hlocked _ _ =>
    rw [hfree] at hlocked
    simp only [Bool.false_eq_true] at hlocked

/-- The operation of an `add`, on the atomic deque. -/
theorem run_pushOp (front : Bool) (task : Task) (d : Deque Task) :
    Lib.run Deque.step d [pushOp front task] =
      some { d with items := pushList front task d.items } := by
  cases front <;> rfl

/-- The operation of the thread that holds the lock comes last. -/
theorem serial_concat {calls : List (Deque.Op Task)} {op : Deque.Op Task}
    {returned : List Task} {d : Deque Task} (hcalls : s.calls = calls ++ [op])
    (h : Serial s calls returned)
    (hop : Lib.run Deque.step ⟨s.pool, returned⟩ [op] = some d) :
    Lib.run Deque.step {} s.calls = some d := by
  rw [hcalls]
  exact run_append_eq_some.mpr ⟨_, h, hop⟩

/-- The moves of a thread without the lock that do not take it. -/
theorem Locking.frame (h : Locking s) {i : ℕ} {c c' : ThreadPc Task} {u : Threads Task}
    (hc : s.threads[i]? = some c) (hholder : c.holder = none) (hholder' : c'.holder = none)
    (hpool : u.pool = s.pool) (hlocked : u.locked = s.locked) (hcalls : u.calls = s.calls)
    (hreturned : u.returned = s.returned) :
    Locking { u with threads := s.threads.set i c' } := by
  have hset := holders_set hc c'
  rw [hholder, hholder', Option.toList_none, Multiset.coe_nil, add_zero, add_zero] at hset
  obtain ⟨pool, locked, permits, threads, calls, returned⟩ := u
  simp only at hpool hlocked hcalls hreturned
  subst hpool hlocked hcalls hreturned
  cases h with
  | free hfree hnone h => exact .free hfree (hset.trans hnone) h
  | held pc hlocked hone h =>
    refine .held pc hlocked (hset.trans hone) ?_
    cases pc <;> exact h

/-- At the beginning of a call the thread does not hold the lock. -/
theorem holder_of_begins {c : ThreadPc Task} (h : c.begins = true) : c.holder = none := by
  cases c with
  | addLock _ _ => rfl
  | getAcquire => rfl
  | _ => simp only [ThreadPc.begins, Bool.false_eq_true] at h

/-- The thread that held the lock holds it still. -/
theorem holders_of_held {i : ℕ} {c c' : ThreadPc Task} (hc : s.threads[i]? = some c)
    (hholder : c.holder = some c) (hone : holders s = {c}) :
    (((s.threads.set i c').filterMap ThreadPc.holder : List (ThreadPc Task)) :
        Multiset (ThreadPc Task)) = c'.holder.toList := by
  have hset := holders_set hc c'
  rw [hholder, hone, Option.toList_some, Multiset.coe_singleton, add_comm] at hset
  exact add_left_cancel hset

/-- A thread takes the free lock. -/
theorem holders_of_free {i : ℕ} {c c' : ThreadPc Task} (hc : s.threads[i]? = some c)
    (hholder : c.holder = none) (hnone : holders s = 0) :
    (((s.threads.set i c').filterMap ThreadPc.holder : List (ThreadPc Task)) :
        Multiset (ThreadPc Task)) = c'.holder.toList := by
  have hset := holders_set hc c'
  rw [hholder, hnone, Option.toList_none, Multiset.coe_nil, add_zero, zero_add] at hset
  exact hset

/-- Each step keeps the lock and the list in order. One case per move: those that take the lock,
those that are made with it, and those that give it back. -/
theorem Locking.step (h : Locking s) {lost : ℕ} (hlost : Lost s lost) {a : ThreadAction Task}
    (hstep : s.step a = some s') : Locking s' := by
  obtain ⟨c, c', u, hc, hmove, rfl⟩ := of_step hstep
  -- a call that does not hold the lock leaves the holder alone
  cases hmove with
  | call hpc => exact h.frame hc rfl (holder_of_begins hpc) rfl rfl rfl rfl
  | getAcquire _ => exact h.frame hc rfl rfl rfl rfl rfl rfl
  | frontEmpty hpool => exact absurd hpool (hlost.pool_ne_nil hc rfl)
  | popEmpty hpool => exact absurd hpool (hlost.pool_ne_nil hc rfl)
  -- the lock was free, so this thread is the only holder from now on
  | addLock hfree =>
    obtain ⟨hnone, hserial⟩ := h.of_free hfree
    exact .held _ rfl (holders_of_free hc rfl hnone) ⟨s.calls, rfl, hserial⟩
  | getLock hfree =>
    obtain ⟨hnone, hserial⟩ := h.of_free hfree
    exact .held _ rfl (holders_of_free hc rfl hnone) ⟨s.calls, rfl, hserial⟩
  -- inside the lock the list takes the task, and so does the queue of the serial history
  | @addList front task =>
    obtain ⟨hlocked, hone, calls, hcalls, hserial⟩ := h.of_holder hc rfl
    refine .held _ hlocked (holders_of_held hc rfl hone) ?_
    show Lib.run Deque.step {} s.calls = some ⟨pushList front task s.pool, s.returned⟩
    exact serial_concat hcalls hserial (run_pushOp front task _)
  | addRelease =>
    obtain ⟨hlocked, hone, hserial⟩ := h.of_holder hc rfl
    exact .held _ hlocked (holders_of_held hc rfl hone) hserial
  | addUnlock =>
    obtain ⟨-, hone, hserial⟩ := h.of_holder hc rfl
    exact .free rfl (holders_of_held hc rfl hone) hserial
  -- the front is remembered, and nobody can change the list until `pop`
  | getFront hpool =>
    obtain ⟨hlocked, hone, calls, hcalls, hserial⟩ := h.of_holder hc rfl
    refine .held _ hlocked (holders_of_held hc rfl hone) ⟨calls, hcalls, hserial, ?_⟩
    show s.pool.head? = _
    rw [hpool, List.head?_cons]
  -- so the element that `pop` removes is the one remembered
  | @getPop task front pool hpool =>
    obtain ⟨hlocked, hone, calls, hcalls, hserial, hhead⟩ := h.of_holder hc rfl
    rw [hpool, List.head?_cons, Option.some.injEq] at hhead
    subst hhead
    refine .held _ hlocked (holders_of_held hc rfl hone) ?_
    show Lib.run Deque.step {} s.calls = some ⟨pool, s.returned ++ [front]⟩
    refine serial_concat hcalls hserial ?_
    rw [hpool]
    rfl
  | getUnlock =>
    obtain ⟨-, hone, hserial⟩ := h.of_holder hc rfl
    exact .free rfl (holders_of_held hc rfl hone) hserial

/-- No move leads behind the end of an empty list. -/
theorem defined_step (h : .undefined ∉ s.threads) {lost : ℕ} (hlost : Lost s lost)
    {a : ThreadAction Task} (hstep : s.step a = some s') : .undefined ∉ s'.threads := by
  obtain ⟨c, c', u, hc, hmove, rfl⟩ := of_step hstep
  intro hmem
  rcases List.mem_or_eq_of_mem_set hmem with hmem | rfl
  · exact h hmem
  · cases hmove with
    | call hpc => simp only [ThreadPc.begins, Bool.false_eq_true] at hpc
    | frontEmpty hpool => exact hlost.pool_ne_nil hc rfl hpool
    | popEmpty hpool => exact hlost.pool_ne_nil hc rfl hpool

/-- All of it along a run, by induction. The three parts go together: that no thread finds the queue
empty needs the count of the permits, and the count needs the lock. -/
theorem inv_of_run {n : ℕ} {actions : List (ThreadAction Task)}
    (hrun : Lib.run step (start Task n) actions = some s) : Inv s := by
  -- a failed release raises the number of lost permits, any other step keeps it
  have hstep : ∀ (s : Threads Task) a s', True → Inv s → step s a = some s' → Inv s' := by
    rintro s a s' - ⟨⟨lost, hlost⟩, hlocking, hdefined⟩ ha
    refine ⟨?_, hlocking.step hlost ha, defined_step hdefined hlost ha⟩
    by_cases hrelease : ReleaseSucceeds s a
    · exact ⟨lost, hlost.step hrelease ha⟩
    · exact ⟨lost + 1, hlost.step_of_fail hrelease ha⟩
  -- at the start every thread is idle
  have hstart : Inv (start Task n) := by
    refine ⟨⟨0, lost_start n⟩, .free rfl ?_ rfl, ?_⟩
    · unfold holders start
      rw [List.filterMap_replicate_of_none rfl]
      rfl
    · intro hmem
      have heq := List.eq_of_mem_replicate hmem
      simp only [reduceCtorEq] at heq
  have hinv := run_invariant hstep (fun _ _ => trivial) hstart hrun
  exact hinv

/-! ### The atomic deque -/

/-- `holder` of a place is the place itself. -/
theorem eq_of_holder {c pc : ThreadPc Task} (h : c.holder = some pc) : c = pc := by
  cases c with
  | idle | addLock _ _ | getAcquire | getLock | undefined =>
    simp only [ThreadPc.holder, reduceCtorEq] at h
  | _ => exact Option.some.inj h

/-- The list is not empty when the holder of the lock is in `get`. -/
theorem Inv.pool_ne_nil (h : Inv s) {pc : ThreadPc Task} (hpc : pc ∈ holders s)
    (hcredit : pc.credit = 1) : s.pool ≠ [] := by
  obtain ⟨lost, hlost⟩ := h.lost
  obtain ⟨c, hc, hholder⟩ := List.mem_filterMap.mp (Multiset.mem_coe.mp hpc)
  obtain rfl := eq_of_holder hholder
  obtain ⟨i, hi⟩ := List.getElem?_of_mem hc
  exact hlost.pool_ne_nil hi hcredit

/-- An atomic deque accepts the calls, and what was returned is what it has popped, up to the pop
of the thread that holds the lock. -/
theorem Inv.refines (h : Inv s) : ∃ d, Lib.run Deque.step {} s.calls = some d ∧
    s.returned <+: d.popped ∧ (s.locked = false → d = ⟨s.pool, s.returned⟩) := by
  cases h.locking with
  | free _ _ hserial => exact ⟨_, hserial, List.prefix_rfl, fun _ => rfl⟩
  | held pc hlocked hone hlock =>
    have hnot : ∀ d : Deque Task, s.locked = false → d = ⟨s.pool, s.returned⟩ := by
      intro d hfree
      rw [hlocked] at hfree
      exact Bool.noConfusion hfree
    have hmem : pc ∈ holders s := by
      rw [hone]
      exact Multiset.mem_singleton_self pc
    -- a pop that is not done yet is done in the deque
    have hpop : ∀ {calls}, pc.credit = 1 → s.calls = calls ++ [.popFront] →
        Serial s calls s.returned → ∃ d, Lib.run Deque.step {} s.calls = some d ∧
          s.returned <+: d.popped ∧ (s.locked = false → d = ⟨s.pool, s.returned⟩) := by
      intro calls hcredit hcalls hserial
      obtain ⟨task, pool, hpool⟩ := List.exists_cons_of_ne_nil (h.pool_ne_nil hmem hcredit)
      refine ⟨⟨pool, s.returned ++ [task]⟩, serial_concat hcalls hserial ?_,
        List.prefix_append .., hnot _⟩
      rw [hpool]
      rfl
    cases pc with
    | addList front task =>
      obtain ⟨calls, hcalls, hserial⟩ := hlock
      exact ⟨_, serial_concat hcalls hserial (run_pushOp front task _), List.prefix_rfl, hnot _⟩
    | addRelease => exact ⟨_, hlock, List.prefix_rfl, fun _ => rfl⟩
    | addUnlock => exact ⟨_, hlock, List.prefix_rfl, fun _ => rfl⟩
    | getFront =>
      obtain ⟨calls, hcalls, hserial⟩ := hlock
      exact hpop rfl hcalls hserial
    | getPop task =>
      obtain ⟨calls, hcalls, hserial, -⟩ := hlock
      exact hpop rfl hcalls hserial
    | getUnlock task => exact ⟨_, hlock, List.prefix_append .., hnot _⟩
    | _ => exact hlock.elim

/-- The queue refines an atomic deque. `front` and `pop_front` find an item, no item is returned
more often than it was added, and the values that are returned are those of a deque to which the
calls are applied in the order in which the threads held the lock. -/
theorem deque_refined {n : ℕ} {actions : List (ThreadAction Task)}
    (hrun : Lib.run step (start Task n) actions = some s) :
    ThreadPc.undefined ∉ s.threads ∧
      (∀ i : ℕ, s.threads[i]? = some .getFront → s.pool ≠ []) ∧
      (∀ (i : ℕ) task, s.threads[i]? = some (.getPop task) → s.pool.head? = some task) ∧
      s.returned.Subperm (s.calls.filterMap Deque.Op.pushed) ∧
      ∃ d, Lib.run Deque.step {} s.calls = some d ∧ s.returned <+: d.popped ∧
        (s.locked = false → d = ⟨s.pool, s.returned⟩) := by
  have hinv := inv_of_run hrun
  obtain ⟨lost, hlost⟩ := hinv.lost
  obtain ⟨d, hd, hreturned, hfree⟩ := hinv.refines
  refine ⟨hinv.defined, fun i hi => hlost.pool_ne_nil hi rfl, ?_, ?_, d, hd, hreturned, hfree⟩
  · intro i task hi
    obtain ⟨-, -, -, -, -, hhead⟩ := hinv.locking.of_holder hi rfl
    exact hhead
  · have hperm := Deque.perm_of_run hd
    have hsub : s.returned.Sublist (d.popped ++ d.items) :=
      hreturned.sublist.trans (List.sublist_append_left ..)
    exact hsub.subperm.trans hperm.subperm

/-- Two threads, one of them in the middle of a `get`. What has been returned so far is what the
deque returns for the calls that held the lock. -/
theorem deque_refined_two :
    ∃ s, Lib.run step (start ℕ 2)
        [.callAdd 0 7, .next 0, .next 0, .next 0, .next 0, .callGet 1, .next 1, .next 1,
          .next 1] = some s ∧
      ThreadPc.undefined ∉ s.threads ∧
      (∀ i : ℕ, s.threads[i]? = some .getFront → s.pool ≠ []) ∧
      (∀ (i : ℕ) task, s.threads[i]? = some (.getPop task) → s.pool.head? = some task) ∧
      s.returned.Subperm (s.calls.filterMap Deque.Op.pushed) ∧
      ∃ d, Lib.run Deque.step {} s.calls = some d ∧ s.returned <+: d.popped ∧
        (s.locked = false → d = ⟨s.pool, s.returned⟩) := by
  have hrun : ∃ s, Lib.run step (start ℕ 2)
      [.callAdd 0 7, .next 0, .next 0, .next 0, .next 0, .callGet 1, .next 1, .next 1,
        .next 1] = some s := ⟨_, rfl⟩
  obtain ⟨s, hrun⟩ := hrun
  exact ⟨s, hrun, deque_refined hrun⟩

end Threads

end OnlineJudger.TaskMgr
