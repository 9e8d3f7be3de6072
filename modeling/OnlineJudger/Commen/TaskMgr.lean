import Mathlib.Data.Nat.Notation

/-!
# `OnlineJudger.Commen.TaskMgr`: the task queues

The model of `Commen/TaskMgr.h` and of `ZSemaphore` in `Commen/ZLock.h`, with the queue
operations atomic. A `get` waits for a permit. `permits_le` says that there is never a permit
without a task behind it, so `front()` is never taken of an empty list.
-/

set_option autoImplicit false

namespace OnlineJudger

namespace ZSemaphore

/-- The maximum that `CreateSemaphore` is given. The list of the queue has no such bound. -/
def maximum : ℕ := 32767

/-- `push`. `ReleaseSemaphore` fails at the maximum and leaves the count as it is. -/
def push (permits : ℕ) : ℕ := if permits < maximum then permits + 1 else permits

/-- One more permit at most. -/
theorem push_le {permits n : ℕ} (h : permits ≤ n) : push permits ≤ n + 1 := by
  unfold push
  split <;> omega

end ZSemaphore

/-- `TaskMgr`. There are no more permits than tasks, but there may be fewer, when a release has
failed. The invariant is a field, so a queue with a permit too many cannot be built. -/
structure TaskMgr (Task : Type) where
  pool : List Task := []
  permits : ℕ := 0
  permits_le : permits ≤ pool.length := by decide

namespace TaskMgr

variable {Task : Type}

/-- `add`: to the back of the list, and a release of the semaphore, whose result is not read. -/
def add (q : TaskMgr Task) (task : Task) : TaskMgr Task where
  pool := q.pool ++ [task]
  permits := ZSemaphore.push q.permits
  permits_le := by
    rw [List.length_append, List.length_singleton]
    exact ZSemaphore.push_le q.permits_le

/-- `addFront`: to the front of the list, in front of all tasks that wait, and a release as in
`add`. -/
def addFront (q : TaskMgr Task) (task : Task) : TaskMgr Task where
  pool := task :: q.pool
  permits := ZSemaphore.push q.permits
  permits_le := by
    rw [List.length_cons]
    exact ZSemaphore.push_le q.permits_le

/-- `get`. `none` is a call that waits. The first task of the list is taken, whichever call has
brought its permit. -/
def get : TaskMgr Task → Option (Task × TaskMgr Task)
  | ⟨_, 0, _⟩ => none
  | ⟨task :: pool, permits + 1, h⟩ => some (task, ⟨pool, permits, Nat.le_of_succ_le_succ h⟩)
  -- a permit without a task is ruled out by the invariant
  | ⟨[], _ + 1, h⟩ => absurd h (Nat.not_succ_le_zero _)

/-- `add` appends, whether the release of the semaphore succeeds or not. -/
@[simp] theorem add_pool (q : TaskMgr Task) (task : Task) :
    (q.add task).pool = q.pool ++ [task] := rfl

/-- `get` takes the front of the list. -/
theorem pool_of_get {q q' : TaskMgr Task} {task : Task} (h : q.get = some (task, q')) :
    q.pool = task :: q'.pool := by
  obtain ⟨pool, permits, hle⟩ := q
  cases permits with
  | zero => simp only [get, reduceCtorEq] at h
  | succ permits =>
    cases pool with
    | nil => exact absurd hle (Nat.not_succ_le_zero _)
    | cons t pool =>
      simp only [get, Option.some.injEq, Prod.mk.injEq] at h
      obtain ⟨rfl, rfl⟩ := h
      rfl

end TaskMgr

end OnlineJudger
