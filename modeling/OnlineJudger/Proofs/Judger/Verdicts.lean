import OnlineJudger.Proofs.Judger.JudgeCore

/-!
# `OnlineJudger.Proofs.Judger.Verdicts`: every judge run sets a verdict

A task starts with the result 0, which is the usual code of a pending submission. The result is
set as a side effect, in the compiler, in the runner, in the matcher and in the test loop.

* `doJudge_mem_verdicts`: the result at the end is one of the verdict codes.
* `doJudge_setResult`: the result that the task had before is overwritten on every path.
-/

set_option autoImplicit false

namespace OnlineJudger

variable (config : Config)

/-! ### Compiler, runner and matcher -/

/-- A failure of the compiler leaves a verdict. -/
theorem CppCompiler.exc_mem_verdicts (report : CompileReport) (task : TaskBase)
    (h : (CppCompiler.exc config report task).1 = false) :
    (CppCompiler.exc config report task).2.result ∈ config.verdicts := by
  unfold exc at h ⊢
  split_ifs at h ⊢ <;> simp [TaskBase.setCompileError, Config.verdicts]

/-- A failure of the runner leaves one, too. -/
theorem ExeDebugRunner.exc_mem_verdicts (report : RunReport) (task : TaskBase)
    (h : (ExeDebugRunner.exc config report task).1 = false) :
    (ExeDebugRunner.exc config report task).2.result ∈ config.verdicts := by
  obtain ⟨hresult, hfail⟩ := ExeDebugRunner.exc_spec config report task
  have hmem := hfail (hresult ▸ h)
  simp only [List.mem_cons, List.not_mem_nil, or_false] at hmem
  simp only [Config.verdicts, List.mem_cons, List.not_mem_nil, or_false]
  tauto

/-- The matcher leaves a verdict, whether it succeeds or not. -/
theorem Matcher.exc_mem_verdicts (srcFile destFile : Option Text) (task : TaskBase) :
    (Matcher.exc config srcFile destFile task).2.result ∈ config.verdicts := by
  unfold exc
  dsimp only
  split_ifs <;> simp [Config.verdicts]

/-- The compiler overwrites the result when it fails, and passes it on when it succeeds. -/
theorem CppCompiler.exc_setResult (report : CompileReport) (task : TaskBase) (result : Int) :
    (CppCompiler.exc config report (task.setResult result)).1 =
        (CppCompiler.exc config report task).1 ∧
      ((CppCompiler.exc config report task).1 = false →
        (CppCompiler.exc config report (task.setResult result)).2 =
          (CppCompiler.exc config report task).2) := by
  have hlanguage : (task.setResult result).language = task.language := rfl
  unfold exc
  rw [hlanguage]
  split_ifs
  · exact ⟨rfl, fun _ => rfl⟩
  · exact ⟨rfl, fun _ => rfl⟩
  · exact ⟨rfl, fun _ => rfl⟩
  · exact ⟨rfl, fun _ => rfl⟩
  · exact ⟨rfl, fun h => h.elim⟩

/-- The same for the runner. -/
theorem ExeDebugRunner.exc_setResult (report : RunReport) (task : TaskBase) (result : Int) :
    ExeDebugRunner.exc config report (task.setResult result) =
      ((ExeDebugRunner.exc config report task).1,
        if (ExeDebugRunner.exc config report task).1 then
          (ExeDebugRunner.exc config report task).2.setResult result
        else (ExeDebugRunner.exc config report task).2) := by
  cases report with
  | createFailed => rfl
  | watched watcher noError code =>
    unfold exc
    dsimp only
    -- the branches where the two runs would differ in success are contradictory
    split_ifs <;> first | rfl | contradiction

/-- The matcher overwrites the result always. -/
theorem Matcher.exc_setResult (srcFile destFile : Option Text) (task : TaskBase) (result : Int) :
    Matcher.exc config srcFile destFile (task.setResult result) =
      Matcher.exc config srcFile destFile task := by
  unfold exc
  dsimp only
  split_ifs <;> rfl

/-- The result and the index of the test are set apart from each other. -/
theorem TaskBase.setTestDataIndex_setResult (task : TaskBase) (i : ℕ) (result : Int) :
    (task.setResult result).setTestDataIndex i = (task.setTestDataIndex i).setResult result := by
  unfold setTestDataIndex
  have hindex : (task.setResult result).curTestDataIndex = task.curTestDataIndex := rfl
  rw [hindex]
  split_ifs <;> rfl

namespace JudgeCore

/-! ### The test loop -/

/-- A test leaves a verdict: the runner has failed, or the matcher has set one. -/
theorem runTest_mem_verdicts (report : TestReport) (i : ℕ) (st : LoopState) :
    (runTest config report i st).1.task.result ∈ config.verdicts := by
  unfold runTest
  dsimp only
  split
  · exact Matcher.exc_mem_verdicts ..
  · next h => exact ExeDebugRunner.exc_mem_verdicts _ _ _ (Bool.eq_false_iff.mpr h)

/-- At least one test is run, and every test leaves a verdict. By induction on the tests that are
left. -/
theorem judgeLoop_mem_verdicts (env : JudgeEnv) (remaining i : ℕ) (st : LoopState)
    (h : st.task.result ∈ config.verdicts ∨ remaining ≠ 0) :
    (judgeLoop config env remaining i st).2.task.result ∈ config.verdicts := by
  induction remaining generalizing i st with
  | zero => exact h.resolve_right fun hne => hne rfl
  | succ remaining ih =>
    have htest := runTest_mem_verdicts config (env.test i) i st
    rw [judgeLoop]
    dsimp only
    split
    · -- the early return on a file that cannot be removed
      simp [Config.verdicts]
    · split
      · exact ih (i + 1) _ (.inl htest)
      · exact htest

/-- A test overwrites the result: the runner does when it fails, and the matcher always. -/
theorem runTest_setResult (report : TestReport) (i : ℕ) (st : LoopState) (result : Int) :
    runTest config report i { st with task := st.task.setResult result } =
      runTest config report i st := by
  unfold runTest
  dsimp only
  rw [TaskBase.setTestDataIndex_setResult, ExeDebugRunner.exc_setResult]
  cases hrun : (ExeDebugRunner.exc config report.run (st.task.setTestDataIndex i)).1 with
  | false => simp only [Bool.false_eq_true, if_false]
  | true => simp only [if_true, Matcher.exc_setResult]

/-- The first test of the loop overwrites the result. -/
theorem judgeLoop_setResult (env : JudgeEnv) (remaining i : ℕ) (st : LoopState) (result : Int) :
    judgeLoop config env (remaining + 1) i { st with task := st.task.setResult result } =
      judgeLoop config env (remaining + 1) i st := by
  rw [judgeLoop, judgeLoop, runTest_setResult]

/-! ### The whole run -/

/-- The result at the end of a judge run is a verdict. -/
theorem doJudge_mem_verdicts (env : JudgeEnv) (task : TaskBase) :
    (doJudge config env task).2.result ∈ config.verdicts := by
  have hfail := CppCompiler.exc_mem_verdicts config env.compile task
  rcases hc : CppCompiler.exc config env.compile task with ⟨compiled, compiledTask⟩
  rw [hc] at hfail
  unfold doJudge
  simp only [hc]
  split
  · next h => exact hfail (by simpa using h)
  · split
    · simp [Config.verdicts]
    · next hcount =>
      have hloop := judgeLoop_mem_verdicts config env compiledTask.getTestDataCount 0
        { task := compiledTask } (.inr hcount)
      split <;> exact hloop

/-- Whatever result the task has before the run, the run ends with the same task. Every way out of
`doJudge` sets the result, and nothing on the way reads it. -/
theorem doJudge_setResult (env : JudgeEnv) (task : TaskBase) (result : Int) :
    doJudge config env (task.setResult result) = doJudge config env task := by
  obtain ⟨hcompiled, hfail⟩ := CppCompiler.exc_setResult config env.compile task result
  cases hc : (CppCompiler.exc config env.compile task).1 with
  | false =>
    have heq : CppCompiler.exc config env.compile (task.setResult result) =
        CppCompiler.exc config env.compile task := Prod.ext hcompiled (hfail hc)
    unfold doJudge
    rw [heq]
  | true =>
    rw [hc] at hcompiled
    have hcount : (task.setResult result).getTestDataCount = task.getTestDataCount := rfl
    unfold doJudge
    rw [CppCompiler.exc_true hcompiled, CppCompiler.exc_true hc]
    dsimp only
    rw [hcount]
    cases hn : task.getTestDataCount with
    | zero => rfl
    | succ remaining =>
      rw [judgeLoop_setResult config env remaining 0 { task } result]
      simp only [Bool.not_true, Bool.false_eq_true, if_false, Nat.add_one_ne_zero]

end JudgeCore

end OnlineJudger
