import Mathlib.Order.Monotone.Basic

/-!
# `OnlineJudger.Acm.Watcher`: watching a process

The model of `acm/Watcher.cpp` and of the part of `acm/ZProcess.cpp` that it calls.

The watcher thread sees the process only through three system calls. `ProcessTrace` is what
these calls answer. It is indexed by the watcher's own calls: the `k`-th call of the watcher
is answered at the index `k`. The process can change in any way between two calls, so every
timing of the process against the watcher is a trace. Killing the process is one of the
things that can happen between two calls.
-/

set_option autoImplicit false

namespace OnlineJudger

/-- `STILL_ACTIVE` of the Windows headers. A process can end with this value as its exit code,
too. -/
def STILL_ACTIVE : UInt32 := 259

/-- What the system reports about a process at each call of the watcher. The user time and
the peak memory never decrease. After the exit, the handle reports the exit code and the
final totals. -/
structure ProcessTrace where
  /-- The exit code. `none` while the process runs. -/
  exited : ℕ → Option UInt32
  /-- The user time, in 100 ns. -/
  userTime : ℕ → UInt64
  /-- The peak page file usage, in bytes. -/
  peakPagefileUsage : ℕ → UInt64
  userTime_mono : ∀ {i j}, i ≤ j → userTime i ≤ userTime j
  peak_mono : ∀ {i j}, i ≤ j → peakPagefileUsage i ≤ peakPagefileUsage j
  exited_final : ∀ {i j c}, exited i = some c → i ≤ j →
    exited j = some c ∧ userTime j = userTime i ∧ peakPagefileUsage j = peakPagefileUsage i

namespace ProcessTrace

/-- `ZProcessBase::getExitCode`: `GetExitCodeProcess` answers `STILL_ACTIVE` for a process that
runs. -/
def getExitCode (process : ProcessTrace) (now : ℕ) : UInt32 :=
  (process.exited now).getD STILL_ACTIVE

/-- `ZProcessBase::isRunning`. It cannot tell a process that runs from one that has ended with
259. -/
def isRunning (process : ProcessTrace) (now : ℕ) : Bool :=
  process.getExitCode now == STILL_ACTIVE

end ProcessTrace

/-- `Watcher`. Times are in 100 ns, and memory is in bytes. The limits are set before the thread
starts. -/
structure Watcher where
  limitTime : UInt64
  limitMemory : UInt64
  runTime : UInt64 := 0
  runMemory : UInt64 := 0
  timeLimited : Bool := false
  memoryLimited : Bool := false
  deriving DecidableEq, Repr

namespace Watcher

/-- `isTimeOut`: a sample was over the limit. What the process does behind the last sample of the
loop is in the numbers, but not in the flag. -/
def isTimeOut (w : Watcher) : Bool := w.timeLimited

/-- `isMemoryOut`: a sample was over the limit, as for the time. -/
def isMemoryOut (w : Watcher) : Bool := w.memoryLimited

/-- `updateTime`: the new state, and whether the time is over the limit. The last sample counts. -/
def updateTime (process : ProcessTrace) (now : ℕ) (w : Watcher) : Watcher × Bool :=
  let w := { w with runTime := process.userTime now }
  (w, w.runTime > w.limitTime)

/-- `updateMemory`: the new state, and whether the memory is over the limit. The largest sample
counts. -/
def updateMemory (process : ProcessTrace) (now : ℕ) (w : Watcher) : Watcher × Bool :=
  let memory := process.peakPagefileUsage now
  let w := if memory > w.runMemory then { w with runMemory := memory } else w
  (w, w.runMemory > w.limitMemory)

/-- The loop of `_doWatch`. `now` counts the system calls. The result is the state and the
index of the next call. -/
def watchLoop (process : ProcessTrace) : ℕ → ℕ → Watcher → Option (Watcher × ℕ)
  | 0, _, _ => none
  | fuel + 1, now, w =>
    if process.isRunning now then
      -- `Sleep(10)`, and then the two samples of the round
      let (w, limited) := updateTime process (now + 1) w
      if limited then some ({ w with timeLimited := true }, now + 2)
      else
        let (w, limited) := updateMemory process (now + 2) w
        if limited then some ({ w with memoryLimited := true }, now + 3)
        else watchLoop process fuel (now + 3) w
    else some (w, now + 1)

/-- `_doWatch`: the final state, whether it called `kill`, and the index of the next call. The
trace holds the effect of `kill`. -/
def doWatch (process : ProcessTrace) (fuel : ℕ) (w : Watcher) : Option (Watcher × Bool × ℕ) :=
  match watchLoop process fuel 0 w with
  | none => none
  | some (w, now) =>
    let killed := process.isRunning now
    -- the last update: the numbers are kept, and what it says about the limits is dropped
    let (w, _) := updateTime process (now + 1) w
    let (w, _) := updateMemory process (now + 2) w
    some (w, killed, now + 3)

end Watcher

end OnlineJudger
