import OnlineJudger.Judger.JudgeCore

/-!
# `OnlineJudger.Proofs.Judger.JudgeCore`: the verdict of a judge run

The result of a task is one field. Runner and matcher overwrite it on every test, and the
loop of `doJudge` leaves early only when the runner fails. `judgeLoop_spec` says what the
field holds at the end of the loop: a failure of the runner, or the matcher's verdict on the
last test.

* `doJudge_accept_iff_iff`: the final result is `JE_ACCEPT` exactly when every test passed,
  unless the matcher rejects some test and accepts the last one (`HiddenFailure`).
-/

set_option autoImplicit false

namespace OnlineJudger

/-- The runner's success, read off the report: no limit was broken, the debugger saw no error, and
the exit code is 0. -/
def RunReport.succeeds : RunReport → Bool
  | .createFailed => false
  | .watched watcher noError code =>
    !watcher.isMemoryOut && !watcher.isTimeOut && noError && code == 0

/-- The matcher's success, read off the two files. -/
def TestReport.accepts (report : TestReport) : Bool :=
  Matcher.compareFiles report.srcFile report.destFile = MATCHER_ACCEPT

/-- Runner and matcher succeed on a test. This is what a user takes an accepted test to be. -/
def TestReport.passes (report : TestReport) : Bool := report.run.succeeds && report.accepts

/-! ### Runner and matcher -/

/-- The runner returns its success. A failure leaves a verdict other than `JE_ACCEPT`. -/
theorem ExeDebugRunner.exc_spec (config : Config) (report : RunReport) (task : TaskBase) :
    (ExeDebugRunner.exc config report task).1 = report.succeeds ∧
      (report.succeeds = false → (ExeDebugRunner.exc config report task).2.result ∈
        [config.JE_TIME_LIMITED, config.JE_MEMORY_LIMITED, config.JE_RUNTIME,
          config.JE_SYSTEM]) := by
  cases report with
  | createFailed => simp [exc, RunReport.succeeds]
  | watched watcher noError code =>
    unfold exc RunReport.succeeds
    cases hm : watcher.isMemoryOut
    · cases ht : watcher.isTimeOut
      · cases noError
        · simp [hm, ht]
        · by_cases hc : code = 0 <;> simp [hm, ht, hc]
      · simp [hm, ht]
    · simp [hm]

/-- The matcher returns its success. Its verdict is `JE_ACCEPT` only for a success. -/
theorem Matcher.exc_spec (config : Config) (report : TestReport) (task : TaskBase) :
    (Matcher.exc config report.srcFile report.destFile task).1 = report.accepts ∧
      (report.accepts = true →
        (Matcher.exc config report.srcFile report.destFile task).2.result = config.JE_ACCEPT) ∧
      (report.accepts = false →
        (Matcher.exc config report.srcFile report.destFile task).2.result ∈
          [config.JE_WRONG_ANWSER, config.JE_PRESENT, config.JE_SYSTEM]) := by
  unfold exc TestReport.accepts
  by_cases hacc : compareFiles report.srcFile report.destFile = MATCHER_ACCEPT
  · simp [hacc]
  · by_cases hwrong : compareFiles report.srcFile report.destFile = MATCHER_WRONG_ANWSER
    · simp [hwrong, MATCHER_ACCEPT, MATCHER_WRONG_ANWSER]
    · by_cases hpresent : compareFiles report.srcFile report.destFile = MATCHER_PRESENT_ERROR
      · simp [hpresent, MATCHER_ACCEPT, MATCHER_WRONG_ANWSER, MATCHER_PRESENT_ERROR]
      · simp [hacc, hwrong, hpresent]

/-- The compiler leaves a compiled task alone. -/
theorem CppCompiler.exc_true {config : Config} {report : CompileReport} {task : TaskBase}
    (h : (CppCompiler.exc config report task).1 = true) :
    CppCompiler.exc config report task = (true, task) := by
  unfold exc at h ⊢
  split at h
  · cases h
  · rename_i hfile
    split at h
    · cases h
    · rename_i hlanguage
      split at h
      · cases h
      · rename_i hcreated
        split at h
        · cases h
        · rename_i hcode
          simp [hfile, hlanguage, hcreated, hcode]

/-! Compiler, runner and matcher leave the identity of the task alone. -/

/-- The compiler sets the result and the error text. -/
theorem CppCompiler.exc_identity (config : Config) (report : CompileReport) (task : TaskBase) :
    (CppCompiler.exc config report task).2.identity = task.identity := by
  unfold exc
  split_ifs <;> rfl

/-- The runner sets the result and the measurements. -/
theorem ExeDebugRunner.exc_identity (config : Config) (report : RunReport) (task : TaskBase) :
    (ExeDebugRunner.exc config report task).2.identity = task.identity := by
  cases report with
  | createFailed => rfl
  | watched watcher noError code =>
    unfold exc
    dsimp only
    split_ifs <;> rfl

/-- The matcher sets the result. -/
theorem Matcher.exc_identity (config : Config) (srcFile destFile : Option Text)
    (task : TaskBase) :
    (Matcher.exc config srcFile destFile task).2.identity = task.identity := by
  unfold exc
  dsimp only
  split_ifs <;> rfl

namespace JudgeCore

/-! ### The test loop -/

/-- One test. The runner's success is returned. Behind a failure of the runner the verdict
is not `JE_ACCEPT`; otherwise it is the matcher's. -/
theorem runTest_spec {config : Config} (hcodes : config.verdicts.Nodup) (report : TestReport)
    (i : ℕ) (st : LoopState) :
    (runTest config report i st).2 = report.run.succeeds ∧
      (report.run.succeeds = false →
        (runTest config report i st).1.task.result ≠ config.JE_ACCEPT ∧
          (runTest config report i st).1.accepted = st.accepted) ∧
      (report.run.succeeds = true →
        ((runTest config report i st).1.task.result = config.JE_ACCEPT ↔ report.accepts = true) ∧
          (runTest config report i st).1.accepted
            = st.accepted + if report.accepts then 1 else 0) := by
  obtain ⟨hrun, hfail⟩ := ExeDebugRunner.exc_spec config report.run (st.task.setTestDataIndex i)
  -- the five codes are distinct
  simp only [Config.verdicts, List.nodup_cons, List.mem_cons, not_or] at hcodes
  unfold runTest
  cases hs : report.run.succeeds with
  -- the run fails: its verdict is none of the matcher's
  | false =>
    have hfail := hfail hs
    simp only [hrun, hs, Bool.false_eq_true, if_false, false_implies, and_true, true_and,
      forall_const]
    intro hacc
    rw [hacc] at hfail
    simp only [List.mem_cons, List.not_mem_nil, or_false] at hfail
    tauto
  -- the run succeeds, and the matcher decides
  | true =>
    obtain ⟨hmatch, hyes, hno⟩ := Matcher.exc_spec config report
      (ExeDebugRunner.exc config report.run (st.task.setTestDataIndex i)).2
    simp only [hrun, hs, if_true, hmatch, Bool.true_eq_false, false_implies, true_and,
      forall_const]
    cases ha : report.accepts with
    | true => simp [hyes ha]
    | false =>
      have hno := hno ha
      simp only [Bool.false_eq_true, if_false, iff_false, Nat.add_zero, and_true]
      intro hacc
      rw [hacc] at hno
      simp only [List.mem_cons, List.not_mem_nil, or_false] at hno
      tauto

/-- The maxima are apart from the count. -/
@[simp] theorem updateMax_accepted (st : LoopState) : (updateMax st).accepted = st.accepted := rfl

/-- The end of the test loop. Either the runner failed on some test, and the verdict is not
`JE_ACCEPT`; or it succeeded on all of them, and the verdict is the matcher's on the last test. By
induction on the tests that are left. -/
theorem judgeLoop_spec {config : Config} (hcodes : config.verdicts.Nodup) (env : JudgeEnv)
    (remaining i : ℕ) (st st' : LoopState)
    (h : judgeLoop config env (remaining + 1) i st = (true, st')) :
    ((∃ j ∈ List.range' i (remaining + 1), (env.test j).run.succeeds = false) ∧
        st'.task.result ≠ config.JE_ACCEPT ∧ st'.accepted < st.accepted + (remaining + 1)) ∨
      ((∀ j ∈ List.range' i (remaining + 1), (env.test j).run.succeeds = true) ∧
        (st'.task.result = config.JE_ACCEPT ↔ (env.test (i + remaining)).accepts = true) ∧
        st'.accepted = st.accepted
          + (List.range' i (remaining + 1)).countP fun j => (env.test j).accepts) := by
  -- on the tests that are left: only the last one decides the verdict
  induction remaining generalizing i st with
  | zero =>
    obtain ⟨hresult, hfail, hsucceed⟩ := runTest_spec hcodes (env.test i) i st
    simp only [judgeLoop, hresult] at h
    split at h
    · cases h
    · cases hs : (env.test i).run.succeeds with
      | false =>
        simp only [hs, Bool.false_eq_true, if_false, Prod.mk.injEq, true_and] at h
        subst h
        obtain ⟨hverdict, haccepted⟩ := hfail hs
        refine Or.inl ⟨⟨i, by simp, hs⟩, hverdict, ?_⟩
        rw [updateMax_accepted, haccepted]
        omega
      | true =>
        simp only [hs, if_true, Prod.mk.injEq, true_and] at h
        subst h
        obtain ⟨hverdict, haccepted⟩ := hsucceed hs
        refine Or.inr ⟨by simp [hs], hverdict, ?_⟩
        rw [updateMax_accepted, haccepted]
        simp [List.countP_cons]
  | succ remaining ih =>
    obtain ⟨hresult, hfail, hsucceed⟩ := runTest_spec hcodes (env.test i) i st
    rw [judgeLoop] at h
    simp only [hresult] at h
    split at h
    · cases h
    · cases hs : (env.test i).run.succeeds with
      | false =>
        simp only [hs, Bool.false_eq_true, if_false, Prod.mk.injEq, true_and] at h
        subst h
        obtain ⟨hverdict, haccepted⟩ := hfail hs
        refine Or.inl ⟨⟨i, by simp, hs⟩, hverdict, ?_⟩
        rw [updateMax_accepted, haccepted]
        omega
      | true =>
        simp only [hs, if_true] at h
        have haccepted := (hsucceed hs).2
        rw [List.range'_succ]
        -- the rest of the loop overwrites the verdict of this test
        rcases ih (i + 1) _ h with ⟨⟨j, hj, hjs⟩, hverdict, hlt⟩ | ⟨hall, hverdict, hcount⟩
        · refine Or.inl ⟨⟨j, List.mem_cons_of_mem _ hj, hjs⟩, hverdict, ?_⟩
          rw [updateMax_accepted, haccepted] at hlt
          split at hlt <;> omega
        · refine Or.inr ⟨?_, by rwa [show i + (remaining + 1) = i + 1 + remaining by omega], ?_⟩
          · intro j hj
            rcases List.mem_cons.mp hj with rfl | hj
            · exact hs
            · exact hall j hj
          · rw [hcount, updateMax_accepted, haccepted, List.countP_cons]
            split <;> omega

/-- `doJudge` returns true only from behind a finished test loop, on at least one test. Every
earlier way out returns false with the result that it has set. -/
theorem doJudge_true {config : Config} {env : JudgeEnv} {task task' : TaskBase}
    (h : doJudge config env task = (true, task')) :
    ∃ remaining st, task.getTestDataCount = remaining + 1 ∧
      judgeLoop config env (remaining + 1) 0 { task } = (true, st) ∧
      task'.result = st.task.result ∧
      task'.passRate = floatRatio st.accepted task.getTestDataCount ∧
      task'.runTime = st.maxTime ∧ task'.runMemory = st.maxMemory := by
  unfold doJudge at h
  -- a compiler that fails ends the judge
  cases hc : (CppCompiler.exc config env.compile task).1 with
  | false => simp [hc] at h
  | true =>
    rw [CppCompiler.exc_true hc] at h
    -- so does a task without tests
    cases hn : task.getTestDataCount with
    | zero => simp [hn] at h
    | succ remaining =>
      cases hloop : judgeLoop config env (remaining + 1) 0 { task } with
      | mk finished st =>
        -- and a loop that stops early
        cases finished with
        | false => simp [hn, hloop] at h
        | true =>
          simp only [Bool.not_true, Bool.false_eq_true, if_false, hn, Nat.add_one_ne_zero, hloop,
            Prod.mk.injEq, true_and] at h
          -- what is left is the loop that went through all tests
          subst h
          exact ⟨remaining, st, rfl, hloop, rfl, rfl, rfl, rfl⟩

/-! ### The identity of the task -/

/-- A test sets the verdict and the measurements. -/
theorem runTest_identity (config : Config) (report : TestReport) (i : ℕ) (st : LoopState) :
    (runTest config report i st).1.task.identity = st.task.identity := by
  have hrun := ExeDebugRunner.exc_identity config report.run (st.task.setTestDataIndex i)
  rw [TaskBase.setTestDataIndex_identity] at hrun
  unfold runTest
  dsimp only
  split
  · exact (Matcher.exc_identity ..).trans hrun
  · exact hrun

/-- The test loop, by induction on the tests that are left. -/
theorem judgeLoop_identity (config : Config) (env : JudgeEnv) (remaining i : ℕ) (st : LoopState) :
    (judgeLoop config env remaining i st).2.task.identity = st.task.identity := by
  induction remaining generalizing i st with
  | zero => rfl
  | succ remaining ih =>
    have htest := runTest_identity config (env.test i) i st
    rw [judgeLoop]
    dsimp only
    split
    · exact htest
    · split
      · exact (ih (i + 1) _).trans htest
      · exact htest

/-- A judge run is about the same submission from start to end. -/
theorem doJudge_identity (config : Config) (env : JudgeEnv) (task : TaskBase) :
    (doJudge config env task).2.identity = task.identity := by
  have hcompile := CppCompiler.exc_identity config env.compile task
  rcases hc : CppCompiler.exc config env.compile task with ⟨compiled, compiledTask⟩
  rw [hc] at hcompile
  unfold doJudge
  simp only [hc]
  split
  · exact hcompile
  · split
    · exact hcompile
    · have hloop := judgeLoop_identity config env compiledTask.getTestDataCount 0
        { task := compiledTask }
      split <;> exact hloop.trans hcompile

/-! ### The verdict -/

/-- The runner succeeds on every test, and the matcher rejects some test and accepts the last one.
Then the verdict of the last test hides that of the other. -/
def HiddenFailure (env : JudgeEnv) (n : ℕ) : Prop :=
  (∀ i < n, (env.test i).run.succeeds = true) ∧ (env.test (n - 1)).accepts = true ∧
    ∃ i < n, (env.test i).accepts = false

section Verdict

variable {env : JudgeEnv} {n : ℕ}

/-- When the runner succeeds everywhere, only the matcher decides. -/
theorem passes_iff_accepts (hall : ∀ i < n, (env.test i).run.succeeds = true) :
    (∀ i < n, (env.test i).passes = true) ↔ ∀ i < n, (env.test i).accepts = true := by
  refine forall₂_congr ?_
  intro i hi
  rw [TestReport.passes, hall i hi, Bool.true_and]

/-- Where the runner succeeds everywhere, a failure is hidden exactly if the last test is accepted
and some other one is not. -/
theorem hiddenFailure_succ_iff (hall : ∀ i < n + 1, (env.test i).run.succeeds = true) :
    HiddenFailure env (n + 1) ↔
      (env.test n).accepts = true ∧ ¬∀ i < n + 1, (env.test i).accepts = true := by
  unfold HiddenFailure
  simp only [not_forall, Bool.not_eq_true, exists_prop]
  exact and_iff_right hall

/-- A test on which the runner fails has not passed, and hides nothing. -/
theorem not_passes_of_fails {j : ℕ} (hj : j < n) (hfail : (env.test j).run.succeeds = false) :
    (¬∀ i < n, (env.test i).passes = true) ∧ ¬HiddenFailure env n := by
  constructor
  · intro hpass
    have hj := hpass j hj
    rw [TestReport.passes, hfail, Bool.false_and] at hj
    exact Bool.noConfusion hj
  · intro hhidden
    have hj := hhidden.1 j hj
    rw [hfail] at hj
    exact Bool.noConfusion hj

/-- All tests are counted exactly when all are accepted. The loop counts the accepted ones. -/
theorem countP_accepts_eq_iff :
    ((List.range' 0 n).countP fun j => (env.test j).accepts) = n ↔
      ∀ i < n, (env.test i).accepts = true := by
  have hcount := List.countP_eq_length (p := fun j => (env.test j).accepts) (l := List.range' 0 n)
  rw [List.length_range'] at hcount
  rw [hcount]
  refine forall_congr' ?_
  intro j
  rw [List.mem_range'_1, Nat.zero_add, and_iff_right (Nat.zero_le j)]

end Verdict

/-- A normal end of `doJudge`. The final result is `JE_ACCEPT` exactly when every test passed, if
and only if no failure is hidden: each test writes its verdict over that of the test before, so a
rejected test is hidden by an accepted last one. The pass rate is the ratio of a counter that is
full exactly when every test passed: it is 1 then, and up to `2 ^ 24` tests only then. -/
theorem doJudge_accept_iff_iff (config : Config) (env : JudgeEnv) (task task' : TaskBase)
    (hcodes : config.verdicts.Nodup) (hend : doJudge config env task = (true, task')) :
    ((task'.result = config.JE_ACCEPT ↔
        ∀ i < task.getTestDataCount, (env.test i).passes = true) ↔
      ¬HiddenFailure env task.getTestDataCount) ∧
    (∃ accepted ≤ task.getTestDataCount,
      task'.passRate = floatRatio accepted task.getTestDataCount ∧
      (accepted = task.getTestDataCount ↔
        ∀ i < task.getTestDataCount, (env.test i).passes = true)) ∧
    ((∀ i < task.getTestDataCount, (env.test i).passes = true) → task'.passRate = 1) ∧
    (task.getTestDataCount ≤ 2 ^ FLT_MANT_DIG → task'.passRate = 1 →
      ∀ i < task.getTestDataCount, (env.test i).passes = true) := by
  -- a normal end has run the loop, so there is at least one test
  obtain ⟨remaining, st, hn, hloop, hresult, hrate, -, -⟩ := doJudge_true hend
  rw [hn] at hrate ⊢
  suffices hcount : ((task'.result = config.JE_ACCEPT ↔
        ∀ i < remaining + 1, (env.test i).passes = true) ↔ ¬HiddenFailure env (remaining + 1)) ∧
      st.accepted ≤ remaining + 1 ∧ (st.accepted = remaining + 1 ↔
        ∀ i < remaining + 1, (env.test i).passes = true) by
    obtain ⟨hverdict, hle, hfull⟩ := hcount
    refine ⟨hverdict, ⟨st.accepted, hle, hrate, hfull⟩, fun hall => ?_, fun hsmall hone => ?_⟩
    · rw [hrate, hfull.mpr hall]
      exact floatRatio_self (Nat.succ_pos remaining)
    · refine hfull.mp (Nat.le_antisymm hle (Nat.le_of_not_lt fun hlt => ?_))
      exact (floatRatio_lt_one hlt hsmall).ne (hrate ▸ hone)
  have hmem : ∀ j, j ∈ List.range' 0 (remaining + 1) ↔ j < remaining + 1 := by
    intro j
    simp [List.mem_range'_1]
  rw [hresult]
  rcases judgeLoop_spec hcodes env remaining 0 _ st hloop with
    ⟨⟨j, hj, hfail⟩, hverdict, hlt⟩ | ⟨hall, hverdict, hcount⟩
  · -- the runner failed: the verdict is not `JE_ACCEPT`, and nothing is hidden
    obtain ⟨hnot, hopen⟩ := not_passes_of_fails ((hmem j).mp hj) hfail
    refine ⟨by simp only [hverdict, hnot, hopen, not_false_eq_true], ?_⟩
    simp only [hnot, iff_false]
    simp only at hlt
    omega
  · -- the runner succeeded everywhere: the verdict is the one on the last test
    have hall : ∀ i < remaining + 1, (env.test i).run.succeeds = true :=
      fun i hi => hall i ((hmem i).mpr hi)
    rw [passes_iff_accepts hall, hiddenFailure_succ_iff hall]
    constructor
    · rw [hverdict, Nat.zero_add]
      constructor
      · rintro hiff ⟨hlast, hnot⟩
        exact hnot (hiff.mp hlast)
      · intro hopen
        constructor
        · intro hlast
          by_contra hnot
          exact hopen ⟨hlast, hnot⟩
        · intro haccepts
          exact haccepts remaining (Nat.lt_succ_self _)
    · rw [hcount, Nat.zero_add]
      refine ⟨?_, countP_accepts_eq_iff⟩
      have hle := List.countP_le_length (p := fun j => (env.test j).accepts)
        (l := List.range' 0 (remaining + 1))
      rwa [List.length_range'] at hle

/-- What the system answers when a test program runs, exits with 0 and writes `output`. -/
def reportOf (expected output : Text) : TestReport where
  run := .watched { limitTime := 10000000, limitMemory := 1048576 } true 0
  srcFile := some expected
  destFile := some output
  removeOutput _ := .deleted

/-- What the system answers when a compiled program writes `first` on the first test and
`second` on the others, and every test expects `1`. -/
def envOf (first second : Text) : JudgeEnv where
  compile := { codeFileExists := true, created := true, exitCode := 0, output := none }
  test i := if i = 0 then reportOf "1".toList first else reportOf "1".toList second
  removeCode _ := .deleted
  removeCompilerOutput _ := .deleted
  removeExeOutput _ := .deleted
  removeExe _ := .deleted

/-- A task with two tests. -/
def twoTests : TaskBase :=
  { userName := [], solutionID := 1, problemID := 1, limitCompileTime := 10000, limitTime := 1,
    limitMemory := 1, language := 0, testData := ["a.out".toList, "b.out".toList] }

/-- Two accepted tests: the result is `JE_ACCEPT`. -/
theorem doJudge_two_accepted :
    (doJudge {} (envOf "1".toList "1".toList) twoTests).2.result = ({} : Config).JE_ACCEPT := by
  have hiff := (doJudge_accept_iff_iff {} (envOf "1".toList "1".toList) twoTests
    (doJudge {} (envOf "1".toList "1".toList) twoTests).2 (by decide) (Prod.ext (by decide) rfl)).1
  have hopen : ¬HiddenFailure (envOf "1".toList "1".toList) twoTests.getTestDataCount := by
    rintro ⟨-, -, i, hi, hreject⟩
    have hi : i < 2 := hi
    obtain rfl | rfl : i = 0 ∨ i = 1 := by omega
    · exact absurd hreject (by decide)
    · exact absurd hreject (by decide)
  refine (hiff.mpr hopen).mpr ?_
  intro i hi
  have hi : i < 2 := hi
  obtain rfl | rfl : i = 0 ∨ i = 1 := by omega
  · decide
  · decide

/-- A wrong answer on the first test and an accepted second test: `doJudge` runs to its
normal end, the result is `JE_ACCEPT`, and the first test did not pass. -/
theorem doJudge_hides_wrong_answer :
    (doJudge {} (envOf "2".toList "1".toList) twoTests).1 = true ∧
      ¬((doJudge {} (envOf "2".toList "1".toList) twoTests).2.result
          = ({} : Config).JE_ACCEPT ↔
        ∀ i < twoTests.getTestDataCount,
          ((envOf "2".toList "1".toList).test i).passes = true) := by
  refine ⟨by decide, ?_⟩
  intro hiff
  have hpass := hiff.mp (by decide) 0 (by decide)
  exact absurd hpass (by decide)

end JudgeCore

end OnlineJudger
