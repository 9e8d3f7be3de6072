import OnlineJudger.Proofs.Judger.JudgeCore

/-!
# `OnlineJudger.Proofs.Judger.Measurements`: what a judge run executes and measures

The fields of a task are scratch space of the test loop and its final result at once. The run
time and the run memory still hold the values of the previous test when a program could not be
started, and the pair of test files is cached behind a comparison of indices.

`judgeLoopLog` is the test loop with a log of the programs it runs. `Fresh` is what the loop
keeps: the cached pair belongs to its index, and the stale measurements are in the maxima
already. `judgeLoopLog_spec` says what the log, the maxima and the count are at the end.
-/

set_option autoImplicit false

namespace OnlineJudger

/-- The run time the runner has stored, in milliseconds. -/
def RunReport.time : RunReport → Option Int
  | .createFailed => none
  | .watched watcher _ _ => some (toInt (watcher.runTime / MS_100NS))

/-- The run memory the runner has stored, in KB. -/
def RunReport.memory : RunReport → Option Int
  | .createFailed => none
  | .watched watcher _ _ => some (toInt (watcher.runMemory / KB_BYTES))

namespace JudgeCore

/-- One executed test: its number, and the two files that runner and matcher get. A list of them is
what the loop leaves no trace of. -/
structure Execution where
  index : ℕ
  input : Text
  output : Text
  deriving DecidableEq, Repr

/-- The files that the task holds. -/
def executionOf (i : ℕ) (task : TaskBase) : Execution :=
  ⟨i, task.curInputTestData, task.curOutputTestData⟩

/-- A test with its own pair of files. -/
def ownExecution (i : ℕ) (output : Text) : Execution :=
  ⟨i, getFileName output ++ ".in".toList, output⟩

/-- `judgeLoop` with the tests that it executes. The first component is the loop itself
(`judgeLoopLog_fst`), so nothing is added to the code but the list. -/
def judgeLoopLog (config : Config) (env : JudgeEnv) :
    ℕ → ℕ → LoopState → (Bool × LoopState) × List Execution
  | 0, _, st => ((true, st), [])
  | remaining + 1, i, st =>
    let execution := executionOf i (st.task.setTestDataIndex i)
    let (st, result) := runTest config (env.test i) i st
    if !safeRemoveFile (env.test i).removeOutput then
      ((false, { st with task := st.task.setResult config.JE_SYSTEM }), [execution])
    else
      let st := updateMax st
      if result then
        let (r, log) := judgeLoopLog config env remaining (i + 1) st
        (r, execution :: log)
      else ((true, st), [execution])

/-- The log is only an observer. -/
theorem judgeLoopLog_fst (config : Config) (env : JudgeEnv) (remaining i : ℕ) (st : LoopState) :
    (judgeLoopLog config env remaining i st).1 = judgeLoop config env remaining i st := by
  induction remaining generalizing i st with
  | zero => rfl
  | succ remaining ih =>
    rw [judgeLoopLog, judgeLoop]
    dsimp only
    split
    · rfl
    · split
      · exact ih _ _
      · rfl

/-- The tests that `doJudge` executes. -/
def executions (config : Config) (env : JudgeEnv) (task : TaskBase) : List Execution :=
  (judgeLoopLog config env task.getTestDataCount 0 { task }).2

/-! ### One test -/

/-- What the task knows before a test: its test data, the pair of files that its index names, and no
measurement above the maxima. It holds before every test of a new task. -/
structure Fresh (testData : List Text) (st : LoopState) : Prop where
  data : st.task.testData = testData
  cached : ∀ i : ℕ, st.task.curTestDataIndex = i →
    executionOf i st.task = ownExecution i (testData.getD i [])
  time : st.task.runTime ≤ st.maxTime
  memory : st.task.runMemory ≤ st.maxMemory

/-- The parts of a task that neither the runner nor the matcher touches. -/
def files (task : TaskBase) : List Text × Int × Text × Text :=
  (task.testData, task.curTestDataIndex, task.curInputTestData, task.curOutputTestData)

/-- The runner stores its measurements, and leaves the files alone. -/
theorem runner_spec (config : Config) (report : RunReport) (task : TaskBase) :
    files (ExeDebugRunner.exc config report task).2 = files task ∧
      (ExeDebugRunner.exc config report task).2.runTime = report.time.getD task.runTime ∧
      (ExeDebugRunner.exc config report task).2.runMemory = report.memory.getD task.runMemory := by
  cases report with
  | createFailed => exact ⟨rfl, rfl, rfl⟩
  | watched watcher noError code =>
    unfold ExeDebugRunner.exc
    dsimp only
    split_ifs <;> exact ⟨rfl, rfl, rfl⟩

/-- The matcher sets the verdict only. -/
theorem matcher_spec (config : Config) (srcFile destFile : Option Text) (task : TaskBase) :
    files (Matcher.exc config srcFile destFile task).2 = files task ∧
      (Matcher.exc config srcFile destFile task).2.runTime = task.runTime ∧
      (Matcher.exc config srcFile destFile task).2.runMemory = task.runMemory := by
  unfold Matcher.exc
  dsimp only
  split_ifs <;> exact ⟨rfl, rfl, rfl⟩

/-- Runner and matcher together. The runner stores its two measurements in the task, and the matcher
changes the result only. -/
theorem runTest_measures (config : Config) (report : TestReport) (i : ℕ) (st : LoopState) :
    let st' := (runTest config report i st).1
    files st'.task = files (st.task.setTestDataIndex i) ∧
      st'.task.runTime = report.run.time.getD (st.task.setTestDataIndex i).runTime ∧
      st'.task.runMemory = report.run.memory.getD (st.task.setTestDataIndex i).runMemory ∧
      st'.maxTime = st.maxTime ∧ st'.maxMemory = st.maxMemory ∧
      st'.accepted = st.accepted + (if report.passes then 1 else 0) ∧
      (runTest config report i st).2 = report.run.succeeds := by
  obtain ⟨hfiles, htime, hmemory⟩ := runner_spec config report.run (st.task.setTestDataIndex i)
  have hrun := (ExeDebugRunner.exc_spec config report.run (st.task.setTestDataIndex i)).1
  obtain ⟨hfiles', htime', hmemory'⟩ := matcher_spec config report.srcFile report.destFile
    (ExeDebugRunner.exc config report.run (st.task.setTestDataIndex i)).2
  have hmatch := (Matcher.exc_spec config report
    (ExeDebugRunner.exc config report.run (st.task.setTestDataIndex i)).2).1
  unfold runTest TestReport.passes
  dsimp only
  rw [hrun]
  cases report.run.succeeds with
  | false =>
    exact ⟨hfiles, htime, hmemory, rfl, rfl, rfl, rfl⟩
  | true =>
    refine ⟨hfiles'.trans hfiles, htime'.trans htime, hmemory'.trans hmemory, rfl, rfl, ?_, rfl⟩
    simp only [hmatch, if_true, Bool.true_and]
    cases report.accepts <;> rfl

/-- The task holds the pair of test `i` after `setTestDataIndex`, also when the index is not
new. -/
theorem executionOf_setTestDataIndex {testData : List Text} {st : LoopState}
    (h : Fresh testData st) (i : ℕ) :
    executionOf i (st.task.setTestDataIndex i) = ownExecution i (testData.getD i []) ∧
      (st.task.setTestDataIndex i).curTestDataIndex = i ∧
      (st.task.setTestDataIndex i).testData = testData ∧
      (st.task.setTestDataIndex i).runTime = st.task.runTime ∧
      (st.task.setTestDataIndex i).runMemory = st.task.runMemory := by
  unfold TaskBase.setTestDataIndex
  split
  · rename_i hindex
    exact ⟨h.cached i hindex.symm, hindex.symm, h.data, rfl, rfl⟩
  · refine ⟨?_, rfl, h.data, rfl, rfl⟩
    rw [← h.data]
    rfl

/-- A stale or a new measurement under the maximum. -/
theorem max_getD {a maximum : Int} (h : a ≤ maximum) (value : Option Int) :
    (if maximum < value.getD a then value.getD a else maximum) =
      value.toList.foldl max maximum := by
  cases value with
  | none => exact if_neg (Int.not_lt.mpr h)
  | some b =>
    simp only [Option.getD_some, Option.toList_some, List.foldl_cons, List.foldl_nil]
    omega

/-- One test: the log entry is the test's own, the maxima take in what was measured, and the
invariant is kept. -/
theorem runTest_fresh {testData : List Text} {st : LoopState} (config : Config)
    (report : TestReport) (i : ℕ) (h : Fresh testData st) :
    let st' := updateMax (runTest config report i st).1
    Fresh testData st' ∧
      st'.maxTime = report.run.time.toList.foldl max st.maxTime ∧
      st'.maxMemory = report.run.memory.toList.foldl max st.maxMemory := by
  obtain ⟨hown, hindex, hdata, htime, hmemory⟩ := executionOf_setTestDataIndex h i
  obtain ⟨hfiles, htime', hmemory', hmax, hmax', -, -⟩ := runTest_measures config report i st
  have hmaxTime : (updateMax (runTest config report i st).1).maxTime =
      report.run.time.toList.foldl max st.maxTime := by
    simp only [updateMax, htime', hmax, htime]
    exact max_getD h.time _
  have hmaxMemory : (updateMax (runTest config report i st).1).maxMemory =
      report.run.memory.toList.foldl max st.maxMemory := by
    simp only [updateMax, hmemory', hmax', hmemory]
    exact max_getD h.memory _
  simp only [files, Prod.mk.injEq] at hfiles
  obtain ⟨hfdata, hfindex, hfinput, hfoutput⟩ := hfiles
  refine ⟨⟨hfdata.trans hdata, ?_, ?_, ?_⟩, hmaxTime, hmaxMemory⟩
  · intro k hk
    -- the index is the one of this test
    have hki : k = i := by
      have hcur := hk.symm.trans (hfindex.trans hindex)
      omega
    rw [hki, ← hown]
    simp only [executionOf, updateMax, hfinput, hfoutput]
  · simp only [updateMax]
    omega
  · simp only [updateMax]
    omega

/-! ### The test loop -/

/-- The measurements of some tests. -/
def measured (value : RunReport → Option Int) (env : JudgeEnv) (tests : List ℕ) : List Int :=
  tests.filterMap fun j => value (env.test j).run

/-- The maximum of one test more. -/
theorem foldl_max_measured_cons (value : RunReport → Option Int) (env : JudgeEnv) (i : ℕ)
    (tests : List ℕ) (a : Int) :
    (measured value env (i :: tests)).foldl max a =
      (measured value env tests).foldl max ((value (env.test i).run).toList.foldl max a) := by
  rw [measured, List.filterMap_cons]
  cases value (env.test i).run <;> rfl

/-- The end of the test loop from test `i` on: it has executed `k` tests in order, each with its own
files. The runner succeeded on all of them but possibly the last, and it failed there when a test is
left. By induction on the tests that are left, with `runTest_fresh` for each of them. -/
theorem judgeLoopLog_spec {testData : List Text} (config : Config) (env : JudgeEnv)
    (remaining i : ℕ) (st st' : LoopState) (log : List Execution) (hfresh : Fresh testData st)
    (h : judgeLoopLog config env remaining i st = ((true, st'), log)) :
    ∃ k ≤ remaining,
      log = (List.range' i k).map (fun j => ownExecution j (testData.getD j [])) ∧
      (∀ j, i ≤ j → j + 1 < i + k → (env.test j).run.succeeds = true) ∧
      (k < remaining → 0 < k ∧ (env.test (i + k - 1)).run.succeeds = false) ∧
      st'.maxTime = (measured RunReport.time env (List.range' i k)).foldl max st.maxTime ∧
      st'.maxMemory = (measured RunReport.memory env (List.range' i k)).foldl max st.maxMemory ∧
      st'.accepted = st.accepted + (List.range' i k).countP fun j => (env.test j).passes := by
  induction remaining generalizing i st log with
  | zero =>
    simp only [judgeLoopLog, Prod.mk.injEq, true_and] at h
    obtain ⟨rfl, rfl⟩ := h
    exact ⟨0, Nat.le_refl 0, rfl, fun j hj hj' => absurd hj' (by omega), fun hk => absurd hk
      (by omega), rfl, rfl, rfl⟩
  | succ remaining ih =>
    obtain ⟨hfresh', hmaxTime, hmaxMemory⟩ := runTest_fresh config (env.test i) i hfresh
    obtain ⟨-, -, -, -, -, haccepted, hresult⟩ := runTest_measures config (env.test i) i st
    have hown := (executionOf_setTestDataIndex hfresh i).1
    rw [judgeLoopLog] at h
    dsimp only at h
    rw [hown, hresult] at h
    split at h
    · cases h
    cases hs : (env.test i).run.succeeds with
    | false =>
      -- the runner failed: this test is the last one
      simp only [hs, Bool.false_eq_true, if_false, Prod.mk.injEq, true_and] at h
      obtain ⟨rfl, rfl⟩ := h
      refine ⟨1, by omega, rfl, fun j hj hj' => absurd hj' (by omega), fun _ => ?_, ?_, ?_, ?_⟩
      · exact ⟨Nat.one_pos, hs⟩
      · rw [hmaxTime, List.range'_one, foldl_max_measured_cons]
        rfl
      · rw [hmaxMemory, List.range'_one, foldl_max_measured_cons]
        rfl
      · rw [updateMax_accepted, haccepted, List.range'_one, List.countP_singleton]
    | true =>
      simp only [hs, if_true, Prod.mk.injEq] at h
      obtain ⟨hloop, rfl⟩ := h
      obtain ⟨k, hk, hlog, hsucceed, hlast, htime, hmemory, hcount⟩ :=
        ih (i + 1) _ _ hfresh' (Prod.ext hloop rfl)
      refine ⟨k + 1, by omega, ?_, ?_, ?_, ?_, ?_, ?_⟩
      · rw [List.range'_succ, List.map_cons, ← hlog]
      · intro j hj hj'
        by_cases hij : j = i
        · rw [hij, hs]
        · exact hsucceed j (by omega) (by omega)
      · intro hlt
        obtain ⟨hpos, hfail⟩ := hlast (by omega)
        exact ⟨by omega, by rwa [show i + (k + 1) - 1 = i + 1 + k - 1 by omega]⟩
      · rw [htime, hmaxTime, List.range'_succ, foldl_max_measured_cons]
      · rw [hmemory, hmaxMemory, List.range'_succ, foldl_max_measured_cons]
      · rw [hcount, updateMax_accepted, haccepted, List.range'_succ, List.countP_cons]
        omega

/-! ### A run on a fresh task -/

/-- A new task with test data holds the pair of its first test, and no measurement. So the maxima of
the loop start from zero. -/
theorem fresh_new (config : Config) (testData : List Text) (solutionID problemID : Int)
    (userName : Text) (language limitCompileTime limitTime limitMemory : Int)
    (hn : (TaskBase.new config testData solutionID problemID userName language limitCompileTime
      limitTime limitMemory).getTestDataCount ≠ 0) :
    Fresh testData
      { task := TaskBase.new config testData solutionID problemID userName language
          limitCompileTime limitTime limitMemory } := by
  unfold TaskBase.new TaskBase.initializeData at hn ⊢
  by_cases hid : solutionID = 0
  · -- the tasks of solution 0 get no test data
    rw [if_pos hid] at hn
    exact absurd rfl hn
  · rw [if_neg hid] at hn ⊢
    dsimp only at hn ⊢
    split
    · refine ⟨rfl, ?_, Int.le_refl 0, Int.le_refl 0⟩
      intro i hi
      have hi : (0 : Int) = i := hi
      obtain rfl : i = 0 := by omega
      rfl
    · rename_i hcount
      rw [if_neg hcount] at hn
      exact absurd (Nat.eq_zero_of_not_pos hcount) hn

/-- The first tests, each with its own pair. -/
theorem map_ownExecution_range' (testData : List Text) {k : ℕ} (hk : k ≤ testData.length) :
    (List.range' 0 k).map (fun j => ownExecution j (testData.getD j [])) =
      (testData.take k).mapIdx ownExecution := by
  apply List.ext_getElem
  · simp [Nat.min_eq_left hk]
  · intro j hj hj'
    have hlt : j < testData.length := by
      rw [List.length_map, List.length_range'] at hj
      omega
    simp [List.getElem_range', List.getD_eq_getElem?_getD, List.getElem?_eq_getElem hlt]

/-- A normal end of `doJudge` on a new task has executed an initial segment of the test data,
each test with its own pair of files. The segment is all of it, or the runner failed on its
last test and on no other. The run time and the run memory are the maxima of 0 and of what the
runner has measured on these tests. The pass rate lies between 0 and 1. It is the number of
accepted tests over the number of all tests as a `float`: up to `2 ^ 24` tests, no `float` is
nearer to the exact ratio. -/
theorem doJudge_measures (config : Config) (env : JudgeEnv) (testData : List Text)
    (solutionID problemID : Int) (userName : Text)
    (language limitCompileTime limitTime limitMemory : Int) (task' : TaskBase)
    (hend : doJudge config env (TaskBase.new config testData solutionID problemID userName
      language limitCompileTime limitTime limitMemory) = (true, task')) :
    ∃ m, 1 ≤ m ∧ m ≤ testData.length ∧
      executions config env (TaskBase.new config testData solutionID problemID userName language
        limitCompileTime limitTime limitMemory) = (testData.take m).mapIdx ownExecution ∧
      (∀ j, j + 1 < m → (env.test j).run.succeeds = true) ∧
      (m = testData.length ∨ (env.test (m - 1)).run.succeeds = false) ∧
      task'.runTime = (measured RunReport.time env (List.range m)).foldl max 0 ∧
      task'.runMemory = (measured RunReport.memory env (List.range m)).foldl max 0 ∧
      ∃ accepted, accepted = (List.range m).countP (fun j => (env.test j).passes) ∧
        task'.passRate = floatRatio accepted testData.length ∧
        0 ≤ task'.passRate ∧ task'.passRate ≤ 1 ∧
        Lib.IsFloat FLT_MANT_DIG task'.passRate ∧
        (testData.length ≤ 2 ^ FLT_MANT_DIG → ∀ y, Lib.IsFloat FLT_MANT_DIG y →
          |(accepted : ℚ) / testData.length - task'.passRate| ≤
            |(accepted : ℚ) / testData.length - y|) := by
  obtain ⟨remaining, st, hn, hloop, -, hrate, htime, hmemory⟩ := doJudge_true hend
  have hfresh := fresh_new config testData solutionID problemID userName language
    limitCompileTime limitTime limitMemory (by omega)
  have hlength : testData.length = remaining + 1 := by
    rw [← hn, TaskBase.getTestDataCount, hfresh.data]
  rw [← judgeLoopLog_fst] at hloop
  obtain ⟨k, hk, hlog, hsucceed, hlast, hmaxTime, hmaxMemory, haccepted⟩ :=
    judgeLoopLog_spec config env (remaining + 1) 0 _ st _ hfresh (Prod.ext hloop rfl)
  rw [Nat.zero_add] at hlast
  have hpos : 1 ≤ k := by
    by_cases hlt : k < remaining + 1
    · exact (hlast hlt).1
    · omega
  simp only [Nat.zero_add] at hsucceed haccepted
  rw [← List.range_eq_range'] at hmaxTime hmaxMemory haccepted
  have hcount := List.countP_le_length (p := fun j => (env.test j).passes) (l := List.range k)
  rw [List.length_range] at hcount
  refine ⟨k, hpos, by omega, ?_, fun j hj => hsucceed j (Nat.zero_le j) hj, ?_,
    htime.trans hmaxTime, hmemory.trans hmaxMemory, st.accepted, haccepted, ?_⟩
  · rw [executions, hn, ← map_ownExecution_range' testData (by omega)]
    exact hlog
  · by_cases hlt : k < remaining + 1
    · exact Or.inr (hlast hlt).2
    · exact Or.inl (by omega)
  · rw [hn, ← hlength] at hrate
    rw [← haccepted] at hcount
    have hle : st.accepted ≤ testData.length := by omega
    obtain ⟨hnonneg, hone⟩ := floatRatio_mem hle
    rw [hrate]
    exact ⟨rfl, hnonneg, hone, isFloat_floatRatio _ _,
      fun hsmall y hy => abs_sub_floatRatio_le hle hsmall hy⟩

/-- A new task with two tests. -/
def newTwoTests : TaskBase :=
  TaskBase.new {} ["a.out".toList, "b.out".toList] 1 1 [] 0 10000 1 1

/-- The runner succeeds on the first of two tests, and the second one is executed. -/
theorem doJudge_measures_two_tests :
    executions {} (envOf "1".toList "2".toList) newTwoTests =
      [ownExecution 0 "a.out".toList, ownExecution 1 "b.out".toList] := by
  obtain ⟨m, hpos, hle, hlog, -, hlast, -⟩ := doJudge_measures {} (envOf "1".toList "2".toList)
    ["a.out".toList, "b.out".toList] 1 1 [] 0 10000 1 1
    (doJudge {} (envOf "1".toList "2".toList) newTwoTests).2 (Prod.ext (by decide) rfl)
  have hle : m ≤ 2 := hle
  obtain rfl | rfl : m = 1 ∨ m = 2 := by omega
  · -- the first test is not the last one, and its runner has not failed
    rcases hlast with hlast | hlast
    · exact absurd hlast (by decide)
    · exact absurd hlast (by decide)
  · exact hlog

/-- A new task with three tests. -/
def newThreeTests : TaskBase :=
  TaskBase.new {} ["a.out".toList, "b.out".toList, "c.out".toList] 1 1 [] 0 10000 1 1

/-- One of three tests is accepted: the pass rate is the `float` next to one third. -/
theorem doJudge_rounds_one_third :
    (doJudge {} (envOf "1".toList "2".toList) newThreeTests).1 = true ∧
    ((List.range 3).countP fun j => ((envOf "1".toList "2".toList).test j).passes) = 1 ∧
    (doJudge {} (envOf "1".toList "2".toList) newThreeTests).2.passRate = 11184811 / 2 ^ 25 ∧
    (doJudge {} (envOf "1".toList "2".toList) newThreeTests).2.passRate ≠ 1 / 3 := by
  have hrate : (doJudge {} (envOf "1".toList "2".toList) newThreeTests).2.passRate
      = floatRatio 1 3 := rfl
  have hfloat : floatRatio 1 3 = 11184811 / 2 ^ 25 := by decide +kernel
  refine ⟨by decide, by decide, hrate.trans hfloat, ?_⟩
  rw [hrate, hfloat]
  norm_num

end JudgeCore

end OnlineJudger
