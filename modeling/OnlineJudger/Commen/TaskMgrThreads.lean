import OnlineJudger.Commen.TaskMgr
import OnlineJudger.Lib.Deque

/-!
# `OnlineJudger.Commen.TaskMgrThreads`: the task queue step by step

The model of `Commen/TaskMgr.h` with the single steps of its calls: the lock, the list and the
semaphore. `add` and `addFront` take the lock, change the list, release the semaphore and give
the lock back. `get` waits for the semaphore first, then takes the lock, reads the front, removes
it and gives the lock back.

Any number of threads call one queue. `lock` of `ZSimpleLock` spins until it finds the mark at 0,
so the step that takes the lock is enabled only then. `front` and `pop_front` of an empty list are
undefined, and the model has a place of its own for that.
-/

set_option autoImplicit false

namespace OnlineJudger.TaskMgr

/-- Where a thread stands in a call of the queue. Each place is in front of one step that other
threads can see. -/
inductive ThreadPc (Task : Type) where
  /-- In no call. -/
  | idle
  /-- In `add` or `addFront`, before the lock. -/
  | addLock (front : Bool) (task : Task)
  /-- Before `push_back` or `push_front`. -/
  | addList (front : Bool) (task : Task)
  /-- Before `m_semap.push()`. -/
  | addRelease
  /-- Before the lock is given back. -/
  | addUnlock
  /-- In `get`, before `m_semap.pop()`. -/
  | getAcquire
  /-- Before the lock. -/
  | getLock
  /-- Before `front()`. -/
  | getFront
  /-- Before `pop_front()`. -/
  | getPop (task : Task)
  /-- Before the lock is given back. -/
  | getUnlock (task : Task)
  /-- Behind `front()` or `pop_front()` of an empty list. -/
  | undefined
  deriving DecidableEq, Repr

/-- A queue and the threads that use it. The two lists at the end record the calls and what they
have returned. -/
structure Threads (Task : Type) where
  /-- `m_pool`. -/
  pool : List Task := []
  /-- `m_lock`, whose mark is 1. -/
  locked : Bool := false
  /-- `m_semap`. -/
  permits : ℕ := 0
  threads : List (ThreadPc Task)
  /-- The calls in the order in which they took the lock. -/
  calls : List (Lib.Deque.Op Task) := []
  /-- The values that `get` has returned, in order. -/
  returned : List Task := []

/-- One step of thread `i`. -/
inductive ThreadAction (Task : Type) where
  | callAdd (i : ℕ) (task : Task)
  | callAddFront (i : ℕ) (task : Task)
  | callGet (i : ℕ)
  /-- The next step of the call. -/
  | next (i : ℕ)

/-- The thread that takes the step. -/
def ThreadAction.thread {Task : Type} : ThreadAction Task → ℕ
  | .callAdd i _ | .callAddFront i _ | .callGet i | .next i => i

namespace Threads

variable {Task : Type}

/-- `n` threads and an empty queue. No thread is in a call. -/
def start (Task : Type) (n : ℕ) : Threads Task where
  threads := List.replicate n .idle

/-- Thread `i` begins a call. It must not be in another one. -/
def call (s : Threads Task) (i : ℕ) (pc : ThreadPc Task) : Option (Threads Task) :=
  match s.threads[i]? with
  | some .idle => some { s with threads := s.threads.set i pc }
  | _ => none

/-- The operation on the list that `add` or `addFront` performs, as one of the abstract deque. -/
def pushOp (front : Bool) (task : Task) : Lib.Deque.Op Task :=
  if front then .pushFront task else .pushBack task

/-- `push_front` or `push_back`. -/
def pushList (front : Bool) (task : Task) (pool : List Task) : List Task :=
  if front then task :: pool else pool ++ [task]

/-- Thread `i` takes the next step of its call. `none` is a thread that spins or waits, or one in no
call. -/
def next (s : Threads Task) (i : ℕ) : Option (Threads Task) :=
  match s.threads[i]? with
  | some (.addLock front task) =>
    if s.locked then none
    else some { s with
      locked := true, threads := s.threads.set i (.addList front task)
      calls := s.calls ++ [pushOp front task] }
  | some (.addList front task) =>
    some { s with
      pool := pushList front task s.pool, threads := s.threads.set i .addRelease }
  | some .addRelease =>
    -- a release beyond the maximum fails, and nothing looks at the result
    some { s with permits := ZSemaphore.push s.permits, threads := s.threads.set i .addUnlock }
  | some .addUnlock => some { s with locked := false, threads := s.threads.set i .idle }
  | some .getAcquire =>
    match s.permits with
    | 0 => none
    | permits + 1 => some { s with permits, threads := s.threads.set i .getLock }
  | some .getLock =>
    if s.locked then none
    else some { s with
      locked := true, threads := s.threads.set i .getFront, calls := s.calls ++ [.popFront] }
  | some .getFront =>
    match s.pool with
    | [] => some { s with threads := s.threads.set i .undefined }
    | task :: _ => some { s with threads := s.threads.set i (.getPop task) }
  | some (.getPop task) =>
    match s.pool with
    | [] => some { s with threads := s.threads.set i .undefined }
    | _ :: pool => some { s with pool, threads := s.threads.set i (.getUnlock task) }
  | some (.getUnlock task) =>
    some { s with
      locked := false, threads := s.threads.set i .idle, returned := s.returned ++ [task] }
  | _ => none

/-- One step: a thread begins a call, or takes the next step of the one it is in. -/
def step (s : Threads Task) : ThreadAction Task → Option (Threads Task)
  | .callAdd i task => s.call i (.addLock false task)
  | .callAddFront i task => s.call i (.addLock true task)
  | .callGet i => s.call i .getAcquire
  | .next i => s.next i

end Threads

end OnlineJudger.TaskMgr
