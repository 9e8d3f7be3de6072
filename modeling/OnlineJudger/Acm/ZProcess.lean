import Mathlib.Data.Nat.Notation

/-!
# `OnlineJudger.Acm.ZProcess`: a process in a job object

The model of the limits of a `ZProcessJob` in `acm/ZProcess.cpp`. An `int` is an `Int32`, and its
arithmetic wraps around.
-/

set_option autoImplicit false

namespace OnlineJudger

/-- What `create` puts into `JOBOBJECT_EXTENDED_LIMIT_INFORMATION`. The two members have 64 bits,
while the numbers that they are made of have 32. -/
structure JobLimits where
  /-- `PerProcessUserTimeLimit`, in 100 ns. -/
  perProcessUserTimeLimit : Int64
  /-- `ProcessMemoryLimit`, in bytes. A `SIZE_T`. -/
  processMemoryLimit : UInt64
  deriving DecidableEq

/-- `ZProcessJob`, with the limits that its constructor gets: milliseconds and kilobytes. -/
structure ZProcessJob where
  limitTime : Int32
  limitMemory : Int32
  deriving DecidableEq

/-- The limits that `ZProcessJob::create` sets. A memory limit that overflows to a negative number
is replaced by 128 MB, and the time limit is not looked at. -/
def ZProcessJob.limits (process : ZProcessJob) : JobLimits :=
  -- the product is an `int`, and it is widened afterwards
  let limitTime : Int64 := (process.limitTime * 10000).toInt64
  let limitMemory : Int32 := process.limitMemory * 1024
  -- beyond the range of an `int`: 128 MB
  let limitMemory : Int32 := if limitMemory < 0 then 128 * 1024 * 1024 else limitMemory
  { perProcessUserTimeLimit := limitTime
    processMemoryLimit := limitMemory.toInt64.toUInt64 }

end OnlineJudger
