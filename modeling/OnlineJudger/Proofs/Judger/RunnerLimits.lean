import OnlineJudger.Proofs.Acm.Watcher

/-!
# `OnlineJudger.Proofs.Judger.RunnerLimits`: the limits of the two runners

`ExeRunner` and `ZProcessJob` compute the limits of a task in `int`, and `ExeDebugRunner` in
`uint64`.

* `process_limitTime`, `process_limitMemory`: the two steps in `int` are one product modulo 2^32.
* `runners_limits_iff`: the limits are the same as long as the products fit in an `int`.
-/

set_option autoImplicit false

namespace OnlineJudger

/-! ### Products in `int` -/

/-- Two products in a row wrap around like one. -/
theorem toInt_ofInt_mul_mul (n : Int) (a b : Int32) :
    (Int32.ofInt n * a * b).toInt = (n * (a.toInt * b.toInt)).bmod (2 ^ 32) := by
  have hsize : Int32.size = 2 ^ 32 := rfl
  rw [Int32.toInt_mul, Int32.toInt_mul, Int32.toInt_ofInt, hsize, Int.bmod_mul_bmod,
    Int.mul_assoc, Int.bmod_mul_bmod]

/-- A product stays what it is as long as it fits in an `int`. -/
theorem bmod_eq_self_iff {x : Int} (h : 0 ≤ x) : x.bmod (2 ^ 32) = x ↔ x < 2 ^ 31 := by
  constructor
  · intro heq
    have hlt := Int.bmod_lt (x := x) (m := 2 ^ 32) (by decide)
    omega
  · intro hlt
    exact Int.bmod_eq_of_le (by omega) (by omega)

/-! ### The limits of `ExeRunner` -/

/-- The time limit, in units of 100 ns. -/
theorem process_limitTime (task : TaskBase) :
    (ExeRunner.process task).limits.perProcessUserTimeLimit.toInt =
      (task.limitTime * 10000000).bmod (2 ^ 32) := by
  have h := toInt_ofInt_mul_mul task.limitTime 1000 10000
  rw [← Int32.toInt_toInt64] at h
  exact h

/-- A number that is not negative is the same in each of the types. -/
theorem toNat_toUInt64 {x : Int32} (h : 0 ≤ x.toInt) :
    (x.toInt64.toUInt64.toNat : Int) = x.toInt := by
  have hle : 0 ≤ x.toInt64 := by
    rw [Int64.le_iff_toInt_le, Int32.toInt_toInt64]
    exact h
  rw [Int64.toNat_toUInt64_of_le hle, Int64.toNatClampNeg, Int32.toInt_toInt64,
    Int.toNat_of_nonneg h]

/-- A negative product stands for 128 MB. -/
theorem process_limitMemory (task : TaskBase) :
    ((ExeRunner.process task).limits.processMemoryLimit.toNat : Int) =
      if (task.limitMemory * 1048576).bmod (2 ^ 32) < 0 then 134217728
      else (task.limitMemory * 1048576).bmod (2 ^ 32) := by
  have h : ((ExeRunner.process task).limitMemory * 1024).toInt =
      (task.limitMemory * 1048576).bmod (2 ^ 32) :=
    toInt_ofInt_mul_mul task.limitMemory KB_BYTES.toUInt32.toInt32 1024
  rw [← h, ZProcessJob.limits]
  generalize (ExeRunner.process task).limitMemory * 1024 = x
  dsimp only
  have hneg : x < 0 ↔ x.toInt < 0 := Int32.lt_iff_toInt_lt
  by_cases hx : x.toInt < 0
  · rw [if_pos (hneg.mpr hx), if_pos hx]
    rfl
  · rw [if_neg (mt hneg.mp hx), if_neg hx]
    exact toNat_toUInt64 (Int.not_lt.mp hx)

/-! ### Both runners -/

/-- The limits of the two runners are the same exactly if both products fit in an `int`: the seconds
in units of 100 ns, and the megabytes in bytes. One runner multiplies in `int`. The other one
multiplies in `uint64`, where an `int` limit of either kind always fits. -/
theorem runners_limits_iff (task : TaskBase)
    (htime : 0 ≤ task.limitTime ∧ task.limitTime < 2 ^ 31)
    (hmemory : 0 ≤ task.limitMemory ∧ task.limitMemory < 2 ^ 31) :
    ((ExeRunner.process task).limits.perProcessUserTimeLimit.toInt =
        (ExeDebugRunner.maxTime task).toNat ∧
      (ExeRunner.process task).limits.processMemoryLimit.toNat =
        (ExeDebugRunner.maxMemory task).toNat) ↔
      task.limitTime ≤ 214 ∧ task.limitMemory ≤ 2047 := by
  have hmaxTime : (ExeDebugRunner.maxTime task).toNat = task.limitTime.toNat * 10000000 :=
    toNat_limit htime.1 htime.2 (by decide)
  have hmaxMemory : (ExeDebugRunner.maxMemory task).toNat = task.limitMemory.toNat * 1048576 :=
    toNat_limit hmemory.1 hmemory.2 (by decide)
  have hcast {n : Int} (h : 0 ≤ n) (a : Nat) : ((n.toNat * a : Nat) : Int) = n * a := by
    rw [Int.natCast_mul, Int.toNat_of_nonneg h]
  rw [process_limitTime, hmaxTime, hcast htime.1, ← Int.natCast_inj, process_limitMemory,
    hmaxMemory, hcast hmemory.1]
  refine and_congr ?_ ?_
  · refine (bmod_eq_self_iff (by omega)).trans ?_
    omega
  -- a product that turns negative is 128 MB in `int`, and it is at least 2^31
  by_cases hneg : (task.limitMemory * 1048576).bmod (2 ^ 32) < 0
  · rw [if_pos hneg]
    have hlarge : ¬ task.limitMemory * 1048576 < 2 ^ 31 := by
      intro hlt
      have := (bmod_eq_self_iff (by omega)).mpr hlt
      omega
    omega
  · rw [if_neg hneg]
    refine (bmod_eq_self_iff (by omega)).trans ?_
    omega

/-- The limits of a task with a second and 32 MB. Both products are far below `2 ^ 31`. -/
theorem runners_limits_small :
    let task : TaskBase := {
      userName := "zhoubao".toList, solutionID := 1001, problemID := 1000, language := 1
      limitCompileTime := 10000, limitTime := 1, limitMemory := 32 }
    (ExeRunner.process task).limits.perProcessUserTimeLimit.toInt =
        (ExeDebugRunner.maxTime task).toNat ∧
      (ExeRunner.process task).limits.processMemoryLimit.toNat =
        (ExeDebugRunner.maxMemory task).toNat :=
  (runners_limits_iff _ (by decide) (by decide)).mpr (by decide)

/-- The test task of the repository has a time limit of 1000 seconds. In `int` the product in units
of 100 ns wraps around, and the limit becomes 141 seconds. -/
theorem runners_limits_differ :
    let task : TaskBase := {
      userName := "zhoubao".toList, solutionID := 1001, problemID := 1000, language := 1
      limitCompileTime := 10000, limitTime := 1000, limitMemory := 32 }
    (ExeRunner.process task).limits.perProcessUserTimeLimit.toInt = 1410065408 ∧
      (ExeDebugRunner.maxTime task).toNat = 10000000000 := by
  decide

end OnlineJudger
