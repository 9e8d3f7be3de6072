import OnlineJudger.Judger.Excuter
import Mathlib.Algebra.Group.Int.Defs
import Mathlib.Algebra.Group.Nat.Defs

/-!
# `OnlineJudger.Proofs.Acm.Watcher`: limits and termination of the watcher

One round of the loop in `_doWatch` makes three calls: `isRunning` at the index `now`, the
time sample at `now + 1`, and the memory sample at `now + 2`. `SampleOver` says that a sample
of the round exceeds a limit. `watchLoop_spec` describes how the loop ends: after some rounds
without such a sample, either the process is seen to have exited, or a sample is over.

* `flags_iff_over_iff`: the flags agree with the final numbers, unless the process ends
  with totals over a limit that no sample of the loop saw (`EndsOverUnsampled`). The last
  update behind the loop refreshes the numbers, and not the flags.
* `watch_ends_iff`: for a process within its limits, the loop ends at the first check after
  the exit, unless the exit code is `STILL_ACTIVE`. There the loop never ends.
-/

set_option autoImplicit false

namespace OnlineJudger

namespace ProcessTrace

/-- A process with a constant user time that allocates `after` bytes in place of `before`
bytes and exits with the code `c`, all at once, right before the call `e`. -/
def burst (e : ℕ) (c : UInt32) (time before after : UInt64) (h : before ≤ after) :
    ProcessTrace where
  exited k := if e ≤ k then some c else none
  userTime _ := time
  peakPagefileUsage k := if e ≤ k then after else before
  userTime_mono _ := UInt64.le_refl _
  peak_mono {i j} hij := by
    split
    · rw [if_pos (by omega)]
      exact UInt64.le_refl _
    · split
      · exact h
      · exact UInt64.le_refl _
  exited_final {i j d} h hij := by
    split at h
    · rename_i hi
      rw [if_pos (Nat.le_trans hi hij), if_pos hi, if_pos (Nat.le_trans hi hij)]
      exact ⟨h, rfl, rfl⟩
    · cases h

variable {process : ProcessTrace}

/-- A process that is not running has exited, with a code other than `STILL_ACTIVE`. -/
theorem exited_of_not_isRunning {k : ℕ} (h : process.isRunning k = false) :
    ∃ c, process.exited k = some c ∧ c ≠ STILL_ACTIVE := by
  unfold isRunning getExitCode at h
  cases he : process.exited k with
  | none => simp [he] at h
  | some c => exact ⟨c, rfl, by simpa [he] using h⟩

/-- From its exit on, a process is running for the watcher exactly when its exit code is
`STILL_ACTIVE`. -/
theorem isRunning_of_exited {e k : ℕ} {c : UInt32} (h : process.exited e = some c)
    (hk : e ≤ k) : process.isRunning k = decide (c = STILL_ACTIVE) := by
  unfold isRunning getExitCode
  rw [(process.exited_final h hk).1, Option.getD_some]
  rfl

/-- A process whose exit code is `STILL_ACTIVE` always looks alive. -/
theorem isRunning_of_stillActive {e : ℕ} (h : process.exited e = some STILL_ACTIVE) (k : ℕ) :
    process.isRunning k = true := by
  rcases Nat.le_total e k with hk | hk
  · simp [isRunning_of_exited h hk]
  · unfold isRunning getExitCode
    cases hc : process.exited k with
    | none => rfl
    | some c =>
      rw [(process.exited_final hc hk).1, Option.some.injEq] at h
      simp [h]

end ProcessTrace

namespace Watcher

variable {process : ProcessTrace} {limitTime limitMemory : UInt64}

/-! ### One round of the loop -/

/-- A sample of the round that starts at the call `now` exceeds a limit. -/
def SampleOver (process : ProcessTrace) (limitTime limitMemory : UInt64) (now : ℕ) : Prop :=
  limitTime < process.userTime (now + 1) ∨ limitMemory < process.peakPagefileUsage (now + 2)

/-- The recorded memory never exceeds the peak, so an update records the peak. -/
theorem updateMemory_eq {now : ℕ} {w : Watcher}
    (h : w.runMemory ≤ process.peakPagefileUsage now) :
    updateMemory process now w =
      ({ w with runMemory := process.peakPagefileUsage now },
        decide (w.limitMemory < process.peakPagefileUsage now)) := by
  unfold updateMemory
  by_cases hlt : process.peakPagefileUsage now > w.runMemory
  · simp [hlt]
  · have heq : w.runMemory = process.peakPagefileUsage now := by grind
    simp [← heq]

/-- The state behind a round that samples at `now + 1` and `now + 2`. -/
def sampled (process : ProcessTrace) (now : ℕ) (w : Watcher) : Watcher :=
  { w with
    runTime := process.userTime (now + 1)
    runMemory := process.peakPagefileUsage (now + 2) }

/-- One round of the loop. -/
theorem watchLoop_succ (fuel : ℕ) {now : ℕ} {w : Watcher}
    (hmem : w.runMemory ≤ process.peakPagefileUsage (now + 2)) :
    watchLoop process (fuel + 1) now w =
      if process.isRunning now = true then
        if w.limitTime < process.userTime (now + 1) then
          some ({ w with runTime := process.userTime (now + 1), timeLimited := true }, now + 2)
        else if w.limitMemory < process.peakPagefileUsage (now + 2) then
          some ({ sampled process now w with memoryLimited := true }, now + 3)
        else watchLoop process fuel (now + 3) (sampled process now w)
      else some (w, now + 1) := by
  have hupdate : updateMemory process (now + 2) { w with
      runTime := process.userTime (now + 1) } = _ := updateMemory_eq hmem
  rw [watchLoop]
  simp only [updateTime, hupdate, decide_eq_true_eq, gt_iff_lt]
  rfl

/-- How the loop ends, from the call `now` on. After `n` rounds without a sample over a
limit, either the process is not running at the next check, or the next round has such a
sample and sets a flag. -/
theorem watchLoop_spec {fuel now next : ℕ} {w w' : Watcher}
    (hmem : w.runMemory ≤ process.peakPagefileUsage now)
    (h : watchLoop process fuel now w = some (w', next)) :
    w'.limitTime = w.limitTime ∧ w'.limitMemory = w.limitMemory ∧
      w'.runMemory ≤ process.peakPagefileUsage next ∧
      ∃ n, (∀ i < n, process.isRunning (now + 3 * i) = true ∧
          ¬SampleOver process w.limitTime w.limitMemory (now + 3 * i)) ∧
        ((process.isRunning (now + 3 * n) = false ∧ next = now + 3 * n + 1 ∧
            w'.timeLimited = w.timeLimited ∧ w'.memoryLimited = w.memoryLimited) ∨
          (process.isRunning (now + 3 * n) = true ∧ now + 3 * n + 1 < next ∧
            SampleOver process w.limitTime w.limitMemory (now + 3 * n) ∧
            (w'.timeLimited = true ∨ w'.memoryLimited = true))) := by
  induction fuel generalizing now w with
  | zero => cases h
  | succ fuel ih =>
    have hmono : ∀ j, now ≤ j → w.runMemory ≤ process.peakPagefileUsage j := fun j hj =>
      UInt64.le_trans hmem (process.peak_mono hj)
    rw [watchLoop_succ fuel (hmono (now + 2) (by omega))] at h
    split at h
    · rename_i hrun
      split at h
      · -- The time sample is over.
        rename_i hover
        cases h
        refine ⟨rfl, rfl, hmono _ (by omega), 0, by simp, Or.inr ⟨hrun, by omega, Or.inl hover,
          Or.inl rfl⟩⟩
      · rename_i htime
        split at h
        · -- The memory sample is over.
          rename_i hover
          cases h
          refine ⟨rfl, rfl, process.peak_mono (by omega), 0, by simp,
            Or.inr ⟨hrun, by omega, Or.inr hover, Or.inr rfl⟩⟩
        · -- A round without a sample over a limit: the rest of the loop starts at `now + 3`.
          rename_i hmemory
          obtain ⟨ht, hm, hle, n, hbefore, hend⟩ := ih (process.peak_mono (by omega)) h
          refine ⟨ht, hm, hle, n + 1, ?_, ?_⟩
          · intro i hi
            cases i with
            | zero =>
              refine ⟨hrun, ?_⟩
              rintro (hover | hover)
              · exact htime hover
              · exact hmemory hover
            | succ i =>
              have := hbefore i (by omega)
              rwa [show now + 3 + 3 * i = now + 3 * (i + 1) by omega] at this
          · rwa [show now + 3 + 3 * n = now + 3 * (n + 1) by omega] at hend
    · rename_i hrun
      cases h
      refine ⟨rfl, rfl, hmono _ (by omega), 0, by simp, Or.inl ⟨by simpa using hrun, by omega,
        rfl, rfl⟩⟩

/-! ### The flags and the final numbers -/

/-- The process ends with totals over a limit, and no sample of the loop was over one: it
runs at the first `n` checks without such a sample, and it has exited at the next check. -/
def EndsOverUnsampled (process : ProcessTrace) (limitTime limitMemory : UInt64) : Prop :=
  ∃ n, (∀ i < n, process.isRunning (3 * i) = true ∧
      ¬SampleOver process limitTime limitMemory (3 * i)) ∧
    process.isRunning (3 * n) = false ∧
    (limitTime < process.userTime (3 * n) ∨ limitMemory < process.peakPagefileUsage (3 * n))

/-- The final state of `_doWatch`, from its loop: the two updates behind the loop set the
numbers, and keep the flags. -/
theorem doWatch_eq_some {fuel next : ℕ} {w : Watcher} {killed : Bool}
    (h : doWatch process fuel { limitTime, limitMemory } = some (w, killed, next)) :
    ∃ w₀ now, watchLoop process fuel 0 { limitTime, limitMemory } = some (w₀, now) ∧
      w.timeLimited = w₀.timeLimited ∧ w.memoryLimited = w₀.memoryLimited ∧
      w.runTime = process.userTime (now + 1) ∧
      w.runMemory = process.peakPagefileUsage (now + 2) := by
  unfold doWatch at h
  cases hloop : watchLoop process fuel 0 { limitTime, limitMemory } with
  | none => simp [hloop] at h
  | some r =>
    obtain ⟨w₀, now⟩ := r
    obtain ⟨-, -, hmem, -⟩ := watchLoop_spec (by simp) hloop
    have hmem' : w₀.runMemory ≤ process.peakPagefileUsage (now + 2) :=
      UInt64.le_trans hmem (process.peak_mono (by omega))
    have hupdate : updateMemory process (now + 2) { w₀ with
        runTime := process.userTime (now + 1) } = _ := updateMemory_eq hmem'
    simp only [hloop, updateTime, hupdate] at h
    cases h
    exact ⟨w₀, now, rfl, rfl, rfl, rfl, rfl⟩

/-- When `_doWatch` has returned, a flag is set exactly when a final number exceeds its
limit, unless the process ended over a limit that no sample saw. -/
theorem flags_iff_over_iff {fuel next : ℕ} {w : Watcher} {killed : Bool}
    (h : doWatch process fuel { limitTime, limitMemory } = some (w, killed, next)) :
    ((w.isTimeOut = true ∨ w.isMemoryOut = true) ↔
        (limitTime < w.runTime ∨ limitMemory < w.runMemory)) ↔
      ¬EndsOverUnsampled process limitTime limitMemory := by
  obtain ⟨w₀, now, hloop, htime, hmemory, hrunTime, hrunMemory⟩ := doWatch_eq_some h
  obtain ⟨-, -, -, n, hbefore, hend⟩ := watchLoop_spec (by simp) hloop
  simp only [Nat.zero_add] at hbefore hend
  unfold isTimeOut isMemoryOut
  rw [htime, hmemory, hrunTime, hrunMemory]
  rcases hend with ⟨hstop, hnow, hflag, hflag'⟩ | ⟨hrun, hnow, hover, hflag⟩
  · -- The loop saw the exit: no flag, and the totals at the exit are the final ones.
    obtain ⟨c, hexit, -⟩ := ProcessTrace.exited_of_not_isRunning hstop
    have hfinal := (process.exited_final hexit (show 3 * n ≤ now + 1 by omega)).2.1
    have hfinal' := (process.exited_final hexit (show 3 * n ≤ now + 2 by omega)).2.2
    rw [hflag, hflag', hfinal, hfinal']
    constructor
    · rintro hiff ⟨m, hm, hstop', htotal⟩
      -- The loop stops at the first check that does not see a running process.
      have hmn : m = n := by
        rcases Nat.lt_trichotomy m n with hlt | heq | hgt
        · rw [(hbefore m hlt).1] at hstop'
          cases hstop'
        · exact heq
        · rw [(hm n hgt).1] at hstop
          cases hstop
      subst hmn
      simpa using hiff.mpr htotal
    · intro hnot
      have : ¬(limitTime < process.userTime (3 * n) ∨
          limitMemory < process.peakPagefileUsage (3 * n)) :=
        fun htotal => hnot ⟨n, hbefore, hstop, htotal⟩
      simp [this]
  · -- A sample was over: a flag is set, and the numbers have not decreased since.
    have hlate : limitTime < process.userTime (now + 1) ∨
        limitMemory < process.peakPagefileUsage (now + 2) := by
      rcases hover with hover | hover
      · have := process.userTime_mono (show 3 * n + 1 ≤ now + 1 by omega)
        exact Or.inl (by grind)
      · have := process.peak_mono (show 3 * n + 2 ≤ now + 2 by omega)
        exact Or.inr (by grind)
    have hnot : ¬EndsOverUnsampled process limitTime limitMemory := by
      rintro ⟨m, hm, hstop', -⟩
      rcases Nat.lt_trichotomy m n with hlt | heq | hgt
      · rw [(hbefore m hlt).1] at hstop'
        cases hstop'
      · rw [heq, hrun] at hstop'
        cases hstop'
      · exact (hm n hgt).2 hover
    simp [hflag, hlate, hnot]

/-! ### Termination -/

/-- The first `isRunning` check at or behind the call `e`. -/
def nextCheck (e : ℕ) : ℕ := 3 * ((e + 2) / 3)

/-- A process that always looks alive and never exceeds a limit is watched for ever: no amount of
fuel brings the loop to its end. By induction on the fuel, for any watcher with these limits. -/
theorem watchLoop_eq_none (halive : ∀ k, process.isRunning k = true)
    (htime : ∀ k, process.userTime k ≤ limitTime)
    (hmemory : ∀ k, process.peakPagefileUsage k ≤ limitMemory) (fuel now : ℕ) (w : Watcher)
    (hlimits : w.limitTime = limitTime ∧ w.limitMemory = limitMemory)
    (hmem : w.runMemory ≤ process.peakPagefileUsage now) :
    watchLoop process fuel now w = none := by
  induction fuel generalizing now w with
  | zero => rfl
  | succ fuel ih =>
    have hmem' : w.runMemory ≤ process.peakPagefileUsage (now + 2) :=
      UInt64.le_trans hmem (process.peak_mono (by omega))
    have htime' : ¬w.limitTime < process.userTime (now + 1) := by
      have := htime (now + 1)
      grind
    have hmemory' : ¬w.limitMemory < process.peakPagefileUsage (now + 2) := by
      have := hmemory (now + 2)
      grind
    -- no exit of the loop is taken, in this round and in every later one
    rw [watchLoop_succ fuel hmem', if_pos (halive now), if_neg htime', if_neg hmemory']
    exact ih (now + 3) _ hlimits (process.peak_mono (by omega))

/-- The loop that sees no running process `n` rounds later has ended by then. A round takes three
samples; it may have ended earlier, at a limit. By induction on the rounds. -/
theorem watchLoop_ends {n : ℕ} (now : ℕ) (w : Watcher)
    (hmem : w.runMemory ≤ process.peakPagefileUsage now)
    (hstop : process.isRunning (now + 3 * n) = false) :
    ∃ w' next, watchLoop process (n + 1) now w = some (w', next) ∧ next ≤ now + 3 * n + 1 := by
  induction n generalizing now w with
  | zero =>
    -- the check comes before any sample, so the last round takes one call
    refine ⟨w, now + 1, ?_, by omega⟩
    rw [watchLoop, if_neg (by simpa using hstop)]
  | succ n ih =>
    have hmem' : w.runMemory ≤ process.peakPagefileUsage (now + 2) :=
      UInt64.le_trans hmem (process.peak_mono (by omega))
    rw [watchLoop_succ (n + 1) hmem']
    split
    · split
      · exact ⟨_, _, rfl, by omega⟩
      · split
        · exact ⟨_, _, rfl, by omega⟩
        · obtain ⟨w', next, hloop, hnext⟩ := ih (now + 3) (sampled process now w)
            (process.peak_mono (by omega))
            (by rwa [show now + 3 + 3 * n = now + 3 * (n + 1) by omega])
          exact ⟨w', next, hloop, by omega⟩
    · exact ⟨_, _, rfl, by omega⟩

/-- `_doWatch` returns when its loop ends. -/
theorem doWatch_isSome {fuel next : ℕ} {w w' : Watcher}
    (h : watchLoop process fuel 0 w = some (w', next)) :
    (doWatch process fuel w).isSome = true := by
  simp [doWatch, h]

/-- A process stays within its limits and exits with the code `c` before the call `e`. Then
the loop ends at the next check at the latest, and `_doWatch` returns, exactly when `c` is
not `STILL_ACTIVE`. -/
theorem watch_ends_iff (process : ProcessTrace) (limitTime limitMemory : UInt64) (e : ℕ)
    (c : UInt32) (hexit : process.exited e = some c)
    (htime : ∀ k, process.userTime k ≤ limitTime)
    (hmemory : ∀ k, process.peakPagefileUsage k ≤ limitMemory) :
    (∃ fuel w next, watchLoop process fuel 0 { limitTime, limitMemory } = some (w, next) ∧
        next ≤ nextCheck e + 1 ∧
        (doWatch process fuel { limitTime, limitMemory }).isSome = true) ↔
      c ≠ STILL_ACTIVE := by
  constructor
  -- behind the exit the code reads as a running process, and the samples stay
  · rintro ⟨fuel, w, next, hloop, -, -⟩ rfl
    rw [watchLoop_eq_none (ProcessTrace.isRunning_of_stillActive hexit) htime hmemory fuel 0
      { limitTime, limitMemory } ⟨rfl, rfl⟩ (by simp)] at hloop
    cases hloop
  · intro hc
    -- the next check lies at or behind the exit, and sees it
    have hcheck : e ≤ 0 + 3 * ((e + 2) / 3) := by omega
    have hstop : process.isRunning (0 + 3 * ((e + 2) / 3)) = false := by
      rw [ProcessTrace.isRunning_of_exited hexit hcheck]
      simp [hc]
    obtain ⟨w, next, hloop, hnext⟩ := watchLoop_ends 0 { limitTime, limitMemory } (by simp) hstop
    exact ⟨_, w, next, hloop, by unfold nextCheck; omega, doWatch_isSome hloop⟩

/-- A process that exits with 0 between the first and the second check. The second check finds an
exit code that is not `STILL_ACTIVE`, and ends the loop. -/
theorem watch_ends_zero :
    ∃ fuel w next, watchLoop (ProcessTrace.burst 1 0 2 3 3 (by decide)) fuel 0
        { limitTime := 5, limitMemory := 5 } = some (w, next) ∧
      next ≤ nextCheck 1 + 1 ∧
      (doWatch (ProcessTrace.burst 1 0 2 3 3 (by decide)) fuel
        { limitTime := 5, limitMemory := 5 }).isSome = true :=
  (watch_ends_iff (ProcessTrace.burst 1 0 2 3 3 (by decide)) 5 5 1 0 rfl
    (fun _ => show (2 : UInt64) ≤ 5 by decide)
    (fun k => show (if 1 ≤ k then 3 else 3 : UInt64) ≤ 5 by split <;> decide)).mpr (by decide)

/-- A process that stays within its limits and exits with 259 is watched for ever: no number of
rounds ends the loop. The exit code 259 is `STILL_ACTIVE`, so each check finds a process that seems
to run. -/
theorem watch_never_ends_259 :
    (ProcessTrace.burst 1 259 2 3 3 (by decide)).exited 1 = some 259 ∧
      (∀ k, (ProcessTrace.burst 1 259 2 3 3 (by decide)).userTime k ≤ 5 ∧
        (ProcessTrace.burst 1 259 2 3 3 (by decide)).peakPagefileUsage k ≤ 5) ∧
      ∀ fuel, watchLoop (ProcessTrace.burst 1 259 2 3 3 (by decide)) fuel 0
        { limitTime := 5, limitMemory := 5 } = none := by
  have hin : ∀ k, (ProcessTrace.burst 1 259 2 3 3 (by decide)).userTime k ≤ 5 ∧
      (ProcessTrace.burst 1 259 2 3 3 (by decide)).peakPagefileUsage k ≤ 5 := fun k =>
    ⟨show (2 : UInt64) ≤ 5 by decide,
      show (if 1 ≤ k then 3 else 3 : UInt64) ≤ 5 by split <;> decide⟩
  refine ⟨rfl, hin, ?_⟩
  intro fuel
  exact watchLoop_eq_none (ProcessTrace.isRunning_of_stillActive (e := 1) rfl)
    (fun k => (hin k).1) (fun k => (hin k).2) fuel 0 _ ⟨rfl, rfl⟩ (by decide)

end Watcher

/-! ### The runner -/

/-- The conversion to `int` never enlarges a number. -/
theorem toInt_le (n : UInt64) : toInt n ≤ n.toNat := by
  have hint : toInt n = (n.toUInt32.toBitVec).toInt := rfl
  have hnat : n.toUInt32.toBitVec.toNat = n.toNat % 2 ^ 32 := by simp
  rw [hint, BitVec.toInt_eq_toNat_bmod, hnat, Int.bmod_def]
  omega

/-- A limit that is an `int`, in a unit below `2 ^ 32`, does not overflow a `uint64`. -/
theorem toNat_limit {limit : Int} {unit : UInt64} (h₀ : 0 ≤ limit) (h : limit < 2 ^ 31)
    (hunit : unit.toNat < 2 ^ 32) :
    (UInt64.ofInt limit * unit).toNat = limit.toNat * unit.toNat := by
  have hlimit : (UInt64.ofInt limit).toNat = limit.toNat := by
    rw [UInt64.ofInt, UInt64.toNat_ofNat']
    omega
  rw [UInt64.toNat_mul, hlimit]
  -- 31 bits times 32 bits
  refine Nat.mod_eq_of_lt ?_
  calc limit.toNat * unit.toNat ≤ 2 ^ 31 * 2 ^ 32 := Nat.mul_le_mul (by omega) (by omega)
    _ < 2 ^ 64 := by decide

namespace ExeDebugRunner

/-- The runner succeeds only on a run without a flag, and it records the watcher's numbers in
milliseconds and kilobytes. -/
theorem exc_true {config : Config} {watcher : Watcher} {noError : Bool} {code : UInt32}
    {task : TaskBase} (h : (exc config (.watched watcher noError code) task).1 = true) :
    watcher.isTimeOut = false ∧ watcher.isMemoryOut = false ∧
      (exc config (.watched watcher noError code) task).2.runTime
        = toInt (watcher.runTime / MS_100NS) ∧
      (exc config (.watched watcher noError code) task).2.runMemory
        = toInt (watcher.runMemory / KB_BYTES) := by
  unfold exc at h ⊢
  simp only at h ⊢
  split at h
  · cases h
  · rename_i hm
    split at h
    · cases h
    · rename_i ht
      split at h
      · cases h
      · rename_i hc
        simp only [hm, ht, hc]
        exact ⟨by simp, by simp, rfl, rfl⟩

/-- A raw time within the limit is recorded as a time within the limit of the task. -/
theorem recorded_time_le {task : TaskBase} {runTime : UInt64} (h : runTime ≤ maxTime task)
    (h₀ : 0 ≤ task.limitTime) (hint : task.limitTime < 2 ^ 31) :
    toInt (runTime / MS_100NS) ≤ task.limitTime * 1000 := by
  have hle := UInt64.le_iff_toNat_le.mp h
  rw [maxTime, toNat_limit h₀ hint (by decide)] at hle
  have hdiv := toInt_le (runTime / MS_100NS)
  rw [UInt64.toNat_div] at hdiv
  have hunit : S_100NS.toNat = 10000000 := by decide
  have hms : MS_100NS.toNat = 10000 := by decide
  rw [hms] at hdiv
  rw [hunit] at hle
  omega

/-- A raw memory within the limit is recorded as a memory within the limit of the task. -/
theorem recorded_memory_le {task : TaskBase} {runMemory : UInt64}
    (h : runMemory ≤ maxMemory task) (h₀ : 0 ≤ task.limitMemory)
    (hint : task.limitMemory < 2 ^ 31) :
    toInt (runMemory / KB_BYTES) ≤ task.limitMemory * 1024 := by
  have hle := UInt64.le_iff_toNat_le.mp h
  rw [maxMemory, toNat_limit h₀ hint (by decide)] at hle
  have hdiv := toInt_le (runMemory / KB_BYTES)
  rw [UInt64.toNat_div] at hdiv
  have hunit : MB_BYTES.toNat = 1048576 := by decide
  have hkb : KB_BYTES.toNat = 1024 := by decide
  rw [hkb] at hdiv
  rw [hunit] at hle
  omega

/-- The watcher decides by the limits, exactly as far as the process does not end over a
limit that no sample saw:

1. the flags agree with the final numbers of the watcher;
2. when the runner returns true, the watcher's final numbers are within the limits of the
   task, and then so are the recorded ones. -/
theorem limits_decide_iff (process : ProcessTrace) :
    (∀ (limitTime limitMemory : UInt64) (fuel next : ℕ) (w : Watcher) (killed : Bool),
      Watcher.doWatch process fuel { limitTime, limitMemory } = some (w, killed, next) →
      (((w.isTimeOut = true ∨ w.isMemoryOut = true) ↔
          (limitTime < w.runTime ∨ limitMemory < w.runMemory)) ↔
        ¬Watcher.EndsOverUnsampled process limitTime limitMemory)) ∧
    ∀ (config : Config) (noError noError' : Bool) (fuel : ℕ) (task : TaskBase) (w : Watcher)
        (code : UInt32),
      watch process noError fuel task = some (.watched w noError' code) →
      (exc config (.watched w noError' code) task).1 = true →
      ((w.runTime ≤ maxTime task ∧ w.runMemory ≤ maxMemory task) ↔
          ¬Watcher.EndsOverUnsampled process (maxTime task) (maxMemory task)) ∧
        (¬Watcher.EndsOverUnsampled process (maxTime task) (maxMemory task) →
          (0 ≤ task.limitTime ∧ task.limitTime < 2 ^ 31 →
            (exc config (.watched w noError' code) task).2.runTime ≤ task.limitTime * 1000) ∧
          (0 ≤ task.limitMemory ∧ task.limitMemory < 2 ^ 31 →
            (exc config (.watched w noError' code) task).2.runMemory
              ≤ task.limitMemory * 1024)) := by
  refine ⟨fun limitTime limitMemory fuel next w killed h => Watcher.flags_iff_over_iff h, ?_⟩
  intro config noError noError' fuel task w code hwatch hok
  obtain ⟨htime, hmemory, hrunTime, hrunMemory⟩ := exc_true hok
  have hflags : ((w.runTime ≤ maxTime task ∧ w.runMemory ≤ maxMemory task) ↔
      ¬Watcher.EndsOverUnsampled process (maxTime task) (maxMemory task)) := by
    unfold watch at hwatch
    cases hdo : Watcher.doWatch process fuel
        { limitTime := maxTime task, limitMemory := maxMemory task } with
    | none => simp [hdo] at hwatch
    | some r =>
      obtain ⟨w₀, killed, next⟩ := r
      simp only [hdo, Option.some.injEq, RunReport.watched.injEq] at hwatch
      obtain ⟨rfl, -, -⟩ := hwatch
      have hiff := Watcher.flags_iff_over_iff hdo
      simp only [htime, hmemory, Bool.false_eq_true, or_self, false_iff] at hiff
      rw [← hiff]
      grind
  refine ⟨hflags, ?_⟩
  intro hnot
  obtain ⟨hwithin, hwithin'⟩ := hflags.mpr hnot
  rw [hrunTime, hrunMemory]
  exact ⟨fun h => recorded_time_le hwithin h.1 h.2, fun h => recorded_memory_le hwithin' h.1 h.2⟩

/-- A task with the limits of one second and one megabyte. -/
def smallTask : TaskBase :=
  { userName := [], solutionID := 1, problemID := 1, limitCompileTime := 10000, limitTime := 1,
    limitMemory := 1, language := 0 }

/-- A run that holds `peak` bytes only between the last sample and its exit. -/
def lateRun (peak : UInt64) (h : 1024 ≤ peak) : ProcessTrace := .burst 3 0 0 1024 peak h

/-- A late growth within the limits. The numbers are within them, and no flag is set. -/
theorem limits_decide_small :
    (((false = true ∨ false = true) ↔ ((5 : UInt64) < 0 ∨ (4096 : UInt64) < 2048)) ↔
        ¬Watcher.EndsOverUnsampled (lateRun 2048 (by decide)) 5 4096) ∧
      (((0 : UInt64) ≤ maxTime smallTask ∧ (2048 : UInt64) ≤ maxMemory smallTask) ↔
        ¬Watcher.EndsOverUnsampled (lateRun 2048 (by decide)) (maxTime smallTask)
          (maxMemory smallTask)) :=
  ⟨(limits_decide_iff (lateRun 2048 (by decide))).1 5 4096 2 7
      { limitTime := 5, limitMemory := 4096, runTime := 0, runMemory := 2048 } false (by decide),
    ((limits_decide_iff (lateRun 2048 (by decide))).2 {} true true 2 smallTask
      { limitTime := maxTime smallTask, limitMemory := maxMemory smallTask, runTime := 0,
        runMemory := 2048 } 0 (by decide) (by decide)).1⟩

/-- A late growth over the limit. The watcher records two megabytes against a limit of one
and sets no flag, and the runner returns true. -/
theorem over_limit_accepted :
    ∃ w, watch (lateRun 2097152 (by decide)) true 2 smallTask = some (.watched w true 0) ∧
      ¬((w.isTimeOut = true ∨ w.isMemoryOut = true) ↔
        (maxTime smallTask < w.runTime ∨ maxMemory smallTask < w.runMemory)) ∧
      (exc {} (.watched w true 0) smallTask).1 = true ∧
      smallTask.limitMemory * 1024 < (exc {} (.watched w true 0) smallTask).2.runMemory :=
  ⟨{ limitTime := maxTime smallTask, limitMemory := maxMemory smallTask, runTime := 0,
     runMemory := 2097152 }, by decide⟩

end ExeDebugRunner

end OnlineJudger
