import OnlineJudger.Proofs.Judger.DBManagerLiterals
import OnlineJudger.Proofs.Judger.Measurements

/-!
# `OnlineJudger.Proofs.Judger.DBManagerBuffers`: which statements fit in their buffer

`doWrite` formats its statements into 1024 characters. The numbers of a finished task take 11
characters at most and its pass rate takes 8, so the statements without a text always fit. The
user name stands in two statements, twice in each, and a compile error in one.

* `numbersOk_doJudge`: what the numbers of a finished task are like.
* `doWriteCalls_fit_iff`: all statements of a task fit exactly when its user name and its compile
  error are short enough.
-/

set_option autoImplicit false

namespace OnlineJudger

open Lib

/-! ### The length of a formatted text -/

/-- An `int`. -/
def IsInt (n : Int) : Prop := -2147483648 ≤ n ∧ n ≤ 2147483647

/-- An `int` takes ten digits and a sign at most. -/
theorem length_formatInt_le {n : Int} (h : IsInt n) : (formatInt n).length ≤ 11 := by
  obtain ⟨hlow, hhigh⟩ := h
  unfold formatInt
  cases n with
  | ofNat m =>
    rw [Int.ofNat_eq_natCast] at hhigh
    have hlength := (Nat.length_repr_le_iff (n := m) (k := 11) (by omega)).mpr (by omega)
    show (Nat.repr m).toList.length ≤ 11
    rw [String.length_toList]
    exact hlength
  | negSucc m =>
    have hlength := (Nat.length_repr_le_iff (n := m + 1) (k := 10) (by omega)).mpr (by omega)
    show ("-" ++ Nat.repr (m + 1)).toList.length ≤ 11
    rw [String.length_toList, String.length_append]
    show 1 + _ ≤ _
    omega

/-- A rate between 0 and 1 has one digit in front of the point. -/
theorem length_formatFloat {r : ℚ} (h : r ≤ 1) : (formatFloat r).length = 8 := by
  have hmicro : ⌊r * 1000000 + 1 / 2⌋.toNat / 1000000 < 10 := by
    have hfloor : ⌊r * 1000000 + 1 / 2⌋ ≤ 1000000 := by
      refine Int.lt_add_one_iff.mp (Int.floor_lt.mpr ?_)
      push_cast
      linarith
    omega
  unfold formatFloat
  dsimp only
  rw [Nat.toDigits_of_lt_base hmicro]
  rfl

/-- The length that an argument adds. It takes the place of its conversion, which has two
characters. -/
def FormatArg.width : FormatArg → ℕ
  | .int n => (formatInt n).length
  | .string str => (cString str).length
  | .float r => (formatFloat r).length

/-- The length that the arguments add together. -/
def widths : List FormatArg → ℕ
  | [] => 0
  | arg :: args => arg.width + widths args

/-- An argument that does not go with its conversion adds nothing. -/
theorem length_formatArg_le (conversion : Char) (arg : FormatArg) :
    (formatArg conversion arg).length ≤ arg.width := by
  unfold formatArg
  split <;> first | exact Nat.le_refl _ | exact Nat.zero_le _

/-- A text is not longer than its format and its arguments. By induction along the format. -/
theorem length_sprintf_le (format : Text) (args : List FormatArg) :
    (sprintf format args).length ≤ format.length + widths args := by
  fun_induction sprintf format args with
  | case1 conversion format arg args ih =>
    have harg := length_formatArg_le conversion arg
    simp only [List.length_append, List.length_cons, widths]
    omega
  | case2 ch format args hnot ih =>
    simp only [List.length_cons]
    omega
  | case3 => exact Nat.zero_le _

/-! ### The numbers of a finished task -/

/-- The numbers of a task: the `int`s that the judge sets, and a pass rate between 0 and 1. So each
of them has a longest text. -/
structure NumbersOk (task : TaskBase) : Prop where
  result : IsInt task.result
  runTime : IsInt task.runTime
  runMemory : IsInt task.runMemory
  rate : 0 ≤ task.passRate ∧ task.passRate ≤ 1

/-- The configured codes are `int`s, as the members of the source are. -/
def Config.IntCodes (config : Config) : Prop := ∀ code ∈ config.verdicts, IsInt code

/-- A measurement is converted to an `int` before it is stored. -/
theorem isInt_toInt (n : UInt64) : IsInt (toInt n) := by
  have hlow := Int32.le_toInt n.toUInt32.toInt32
  have hhigh := Int32.toInt_lt n.toUInt32.toInt32
  unfold IsInt toInt
  omega

/-- Zero is an `int`. -/
theorem isInt_zero : IsInt 0 := by
  unfold IsInt
  omega

section Numbers

variable {config : Config} {task : TaskBase}

/-- A code of the configuration is an `int`. -/
theorem NumbersOk.setResult (h : NumbersOk task) {code : Int} (hcode : IsInt code) :
    NumbersOk (task.setResult code) :=
  ⟨hcode, h.runTime, h.runMemory, h.rate⟩

/-- The next test leaves the numbers, and its index is below the number of the tests. -/
theorem NumbersOk.setTestDataIndex (h : NumbersOk task) (i : ℕ) :
    NumbersOk (task.setTestDataIndex i) := by
  unfold TaskBase.setTestDataIndex
  split
  · exact h
  · exact ⟨h.result, h.runTime, h.runMemory, h.rate⟩

/-- The compiler sets one of the configured codes. -/
theorem numbersOk_compile (hconfig : config.IntCodes) (h : NumbersOk task)
    (report : CompileReport) : NumbersOk (CppCompiler.exc config report task).2 := by
  have hsystem : IsInt config.JE_SYSTEM := hconfig _ (by simp [Config.verdicts])
  have hcomplie : IsInt config.JE_COMPLIE := hconfig _ (by simp [Config.verdicts])
  unfold CppCompiler.exc
  split
  · exact h.setResult hsystem
  · split
    · exact h.setResult hcomplie
    · split
      · exact h.setResult hsystem
      · split
        · exact ⟨hcomplie, h.runTime, h.runMemory, h.rate⟩
        · exact h

/-- The runner sets a code and its measurements. -/
theorem numbersOk_run (hconfig : config.IntCodes) (h : NumbersOk task) (report : RunReport) :
    NumbersOk (ExeDebugRunner.exc config report task).2 := by
  cases report with
  | createFailed => exact h.setResult (hconfig _ (by simp [Config.verdicts]))
  | watched watcher noError code =>
    have hmeasured : NumbersOk ((task.setRunTime (toInt (watcher.runTime / MS_100NS))).setRunMemory
        (toInt (watcher.runMemory / KB_BYTES))) :=
      ⟨h.result, isInt_toInt _, isInt_toInt _, h.rate⟩
    unfold ExeDebugRunner.exc
    dsimp only
    split
    · exact hmeasured.setResult (hconfig _ (by simp [Config.verdicts]))
    · split
      · exact hmeasured.setResult (hconfig _ (by simp [Config.verdicts]))
      · split
        · exact hmeasured.setResult (hconfig _ (by simp [Config.verdicts]))
        · exact hmeasured

/-- The matcher sets a code. -/
theorem numbersOk_match (hconfig : config.IntCodes) (h : NumbersOk task)
    (srcFile destFile : Option Text) :
    NumbersOk (Matcher.exc config srcFile destFile task).2 := by
  unfold Matcher.exc
  dsimp only
  split
  · exact h.setResult (hconfig _ (by simp [Config.verdicts]))
  · split
    · exact h.setResult (hconfig _ (by simp [Config.verdicts]))
    · split
      · exact h.setResult (hconfig _ (by simp [Config.verdicts]))
      · exact h.setResult (hconfig _ (by simp [Config.verdicts]))

end Numbers

namespace JudgeCore

/-- The numbers of the test loop, in front of test `i`. It is the invariant that the pass rate
needs: no more tests are accepted than were run. -/
structure LoopOk (i : ℕ) (st : LoopState) : Prop where
  task : NumbersOk st.task
  maxTime : IsInt st.maxTime
  maxMemory : IsInt st.maxMemory
  accepted : st.accepted ≤ i

/-- One test keeps the numbers: the maxima are measurements, and the tests that have passed are no
more than those that have run. -/
theorem loopOk_test {config : Config} (hconfig : config.IntCodes) (report : TestReport) {i : ℕ}
    {st : LoopState} (h : LoopOk i st) :
    LoopOk (i + 1) (updateMax (runTest config report i st).1) := by
  have hrun := numbersOk_run hconfig (h.task.setTestDataIndex i) report.run
  have hmatch := numbersOk_match hconfig hrun report.srcFile report.destFile
  obtain ⟨-, -, -, hmaxTime, hmaxMemory, haccepted, -⟩ := runTest_measures config report i st
  have htask : NumbersOk (runTest config report i st).1.task := by
    unfold runTest
    dsimp only
    split
    · exact hmatch
    · exact hrun
  refine ⟨htask, ?_, ?_, ?_⟩
  -- the maxima come from the measures of this test or from those before it
  · unfold updateMax
    dsimp only
    split
    · exact htask.runTime
    · rw [hmaxTime]
      exact h.maxTime
  · unfold updateMax
    dsimp only
    split
    · exact htask.runMemory
    · rw [hmaxMemory]
      exact h.maxMemory
  -- at most one more accepted test than tests run
  · have hle := h.accepted
    rw [updateMax_accepted, haccepted]
    split <;> omega

/-- The numbers at the end of the loop, by induction on the tests that are left. Every result is a
code of the configuration, and the maxima are times and sizes that a runner has stored. -/
theorem loopOk_judgeLoop {config : Config} (hconfig : config.IntCodes) (env : JudgeEnv)
    (remaining i : ℕ) {st : LoopState} (h : LoopOk i st) :
    NumbersOk (judgeLoop config env remaining i st).2.task ∧
      ((judgeLoop config env remaining i st).1 = true →
        LoopOk (i + remaining) (judgeLoop config env remaining i st).2) := by
  induction remaining generalizing i st with
  | zero => exact ⟨h.task, fun _ => h⟩
  | succ remaining ih =>
    have htest := loopOk_test hconfig (env.test i) h
    rw [judgeLoop]
    dsimp only
    split
    · refine ⟨htest.task.setResult (hconfig _ (by simp [Config.verdicts])), fun hend => ?_⟩
      cases hend
    · split
      · have hloop := ih (i + 1) htest
        rw [show i + (remaining + 1) = i + 1 + remaining by omega]
        exact hloop
      · refine ⟨htest.task, fun _ => ⟨htest.task, htest.maxTime, htest.maxMemory, ?_⟩⟩
        exact htest.accepted.trans (by omega)

/-- The numbers of a finished task. The rate is that of the loop behind the last test, and it is
untouched on every way out before that. -/
theorem numbersOk_doJudge {config : Config} (hconfig : config.IntCodes) (env : JudgeEnv)
    {task : TaskBase} (h : NumbersOk task) : NumbersOk (doJudge config env task).2 := by
  have hcompile := numbersOk_compile hconfig h env.compile
  unfold doJudge
  dsimp only
  split
  -- a compile error ends the judge with the task as the compiler leaves it
  · exact hcompile
  · split
    · exact hcompile.setResult (hconfig _ (by simp [Config.verdicts]))
    · have hstart : LoopOk 0 { task := (CppCompiler.exc config env.compile task).2 } :=
        -- the loop starts with everything at zero
        ⟨hcompile, isInt_zero, isInt_zero, Nat.le_refl 0⟩
      obtain ⟨hfailed, hfinished⟩ := loopOk_judgeLoop hconfig env
        (CppCompiler.exc config env.compile task).2.getTestDataCount 0 hstart
      split
      -- an answer that stops the loop early carries its own task out
      · exact hfailed
      · rename_i hend
        -- after the last test the rate is a ratio of two counts in order
        have hloop := hfinished (by simpa using hend)
        rw [Nat.zero_add] at hloop
        exact ⟨hloop.task.result, hloop.maxTime, hloop.maxMemory,
          floatRatio_mem hloop.accepted⟩

/-- A new task. -/
theorem numbersOk_new (config : Config) (testData : List Text) (solutionID problemID : Int)
    (userName : Text) (language limitCompileTime limitTime limitMemory : Int) :
    NumbersOk (TaskBase.new config testData solutionID problemID userName language
      limitCompileTime limitTime limitMemory) := by
  unfold TaskBase.new TaskBase.initializeData
  split
  · exact ⟨isInt_zero, isInt_zero, isInt_zero, le_rfl, zero_le_one⟩
  · dsimp only
    split
    · exact NumbersOk.setTestDataIndex
        ⟨isInt_zero, isInt_zero, isInt_zero, le_rfl, zero_le_one⟩ 0
    · exact ⟨isInt_zero, isInt_zero, isInt_zero, le_rfl, zero_le_one⟩

end JudgeCore

/-! ### Which statements fit -/

namespace DBManager

/-- A text fits in its buffer together with the NUL. -/
theorem run_isSome_iff (call : SqlCall) : call.run.isSome ↔ call.text.length + 1 ≤ bufferSize := by
  unfold SqlCall.run sprintf_s SqlCall.text
  split <;> simp_all

/-- A statement whose format and arguments are short enough fits. -/
theorem run_isSome_of_width {call : SqlCall}
    (h : call.format.length + widths call.args + 1 ≤ bufferSize) :
    call.run.isSome := by
  rw [run_isSome_iff]
  have hle := length_sprintf_le call.format call.args
  unfold SqlCall.text
  omega

/-- How long the statement of `updateUserSolved` is. The name stands in it twice. -/
theorem length_solved (accept : Int) (name : Text) :
    (SqlCall.text ⟨sqlUpdateUserSolved, [.string name, .int accept, .string name]⟩).length =
      2 * (cString name).length + (formatInt accept).length + 133 := by
  have hupdate : "UPDATE `users` SET `solved`=".toList.length = 28 := by decide
  have hselect : "(SELECT count(DISTINCT `problem_id`) FROM `solution` ".toList.length = 53 := by
    decide
  have hwhere : "WHERE `user_id`=".toList.length = 16 := by decide
  have hresult : " AND `result`=".toList.length = 14 := by decide
  have hwhere' : ") WHERE `user_id`=".toList.length = 18 := by decide
  rw [SqlCall.text, text_solved accept name name]
  simp only [literals, solvedCodes, List.map_cons, List.map_nil, Sql.assemble, List.length_append,
    List.length_cons, List.length_nil, hupdate, hselect, hwhere, hresult, hwhere']
  omega

/-- How long the statement of `updateUserSubmit` is. -/
theorem length_submit (name : Text) :
    (SqlCall.text ⟨sqlUpdateUserSubmit, [.string name, .string name]⟩).length =
      2 * (cString name).length + 99 := by
  have hupdate : "UPDATE `users` SET `submit`=".toList.length = 28 := by decide
  have hselect : "(SELECT count(*) FROM `solution` WHERE `user_id`=".toList.length = 49 := by decide
  have hwhere : ") WHERE `user_id`=".toList.length = 18 := by decide
  rw [SqlCall.text, text_submit name name]
  simp only [literals, submitCodes, List.map_cons, List.map_nil, Sql.assemble, List.length_append,
    List.length_cons, List.length_nil, hupdate, hselect, hwhere]
  omega

/-- How long the statement with the compile error is. -/
theorem length_insert (solutionID : Int) (errorStr : Text) :
    (SqlCall.text ⟨sqlInsertCompile, [.int solutionID, .string errorStr]⟩).length =
      (formatInt solutionID).length + (cString errorStr).length + 57 := by
  have hfirst : "INSERT INTO `compileinfo`(solution_id, error)VALUES(".toList.length = 52 := by
    decide
  have hsecond : ", ".toList.length = 2 := by decide
  have hlast : ")".toList.length = 1 := by decide
  rw [SqlCall.text, text_insert solutionID errorStr errorStr]
  simp only [literals, insertCodes, List.map_cons, List.map_nil, Sql.assemble, List.length_append,
    List.length_cons, hfirst, hsecond, hlast]
  omega

/-- The texts of a task are short enough as bytes: the user name, which stands twice in a statement,
and for a compile error the error text, in which the escaped characters count twice. -/
def ShortTexts (page : CodePage) (config : Config) (task : TaskBase) : Prop :=
  2 * (wcharToChar page task.userName).length + (formatInt config.JE_ACCEPT).length ≤ 890 ∧
    (task.result = config.JE_COMPLIE →
      (formatInt task.solutionID).length + (wcharToChar page task.compileErrorStr).length +
        (wcharToChar page task.compileErrorStr).countP needsEscape ≤ 966)

set_option maxRecDepth 2000 in
/-- How long the formats are that have numbers only. -/
theorem length_numberFormats :
    sqlUpdateSolution.length = 117 ∧ sqlUpdateProblemAccept.length = 131 ∧
      sqlUpdateProblemSubmit.length = 110 ∧ sqlDeleteCompile.length = 48 := by
  decide

/-- The statements without a text. They hold numbers only, and the buffer has room for the longest
decimal forms of all of them. -/
theorem numbers_fit {config : Config} {task : TaskBase} (hconfig : config.IntCodes)
    (h : NumbersOk task) (hsolution : IsInt task.solutionID) (hproblem : IsInt task.problemID) :
    (∀ call ∈ updateSolution task ++ updateProblem config task, call.run.isSome) ∧
      (SqlCall.run ⟨sqlDeleteCompile, [.int task.solutionID]⟩).isSome := by
  -- each number has its longest form, and the formats leave room for all of them
  have hresult := length_formatInt_le h.result
  have htime := length_formatInt_le h.runTime
  have hmemory := length_formatInt_le h.runMemory
  have hrate := length_formatFloat h.rate.2
  have hid := length_formatInt_le hsolution
  have hpid := length_formatInt_le hproblem
  have haccept := length_formatInt_le (hconfig config.JE_ACCEPT (by simp [Config.verdicts]))
  have hsize : bufferSize = 1024 := rfl
  obtain ⟨hupdate, haccepted, hsubmit, hdelete⟩ := length_numberFormats
  constructor
  · intro call hcall
    simp only [updateSolution, updateProblem, List.cons_append, List.nil_append, List.mem_cons,
      List.not_mem_nil, or_false] at hcall
    rcases hcall with rfl | rfl | rfl <;> refine run_isSome_of_width ?_ <;>
      simp only [widths, FormatArg.width] <;>
      omega
  -- the statement of a compile error's row carries one id only
  · refine run_isSome_of_width ?_
    simp only [widths, FormatArg.width]
    omega

/-- The statements of a task fit exactly when its texts are short enough. The name stands twice in a
statement, and the escaped error text has one more character for each that is escaped, so the
lengths can be read off `ShortTexts`. -/
theorem doWriteCalls_fit_iff (page : CodePage) {escape : Text → Text} (hescape : RealEscape escape)
    {config : Config} {task : TaskBase} (hconfig : config.IntCodes) (h : NumbersOk task)
    (hsolution : IsInt task.solutionID) (hproblem : IsInt task.problemID) :
    (∀ call ∈ doWriteCalls page escape config task, call.run.isSome) ↔
      ShortTexts page config task := by
  obtain ⟨hnumbers, hdelete⟩ := numbers_fit hconfig h hsolution hproblem
  have hsize : bufferSize = 1024 := rfl
  have hsolved : (userSolvedCall page config task).text.length = _ :=
    length_solved config.JE_ACCEPT (wcharToChar page task.userName)
  have hsubmit : (userSubmitCall page task).text.length = _ :=
    length_submit (wcharToChar page task.userName)
  have hinsert := length_insert task.solutionID
    (ZMySql.escapeString escape (wcharToChar page task.compileErrorStr))
  -- the escaped text has no NUL, so nothing of it is cut
  have herror : cString (ZMySql.escapeString escape (wcharToChar page task.compileErrorStr)) =
      escape (wcharToChar page task.compileErrorStr) := by
    show cString (cString (escape _)) = _
    rw [cString_cString, cString_eq_self (hescape.noNul _)]
  rw [cString_wcharToChar] at hsolved hsubmit
  rw [herror, hescape.length] at hinsert
  constructor
  · intro hfit
    refine ⟨?_, fun hresult => ?_⟩
    · have hcall := (run_isSome_iff _).mp (hfit _ (by
        rw [doWriteCalls, updateUser]
        simp only [List.mem_append]
        exact Or.inl (Or.inl (Or.inr (List.mem_cons_self ..)))))
      omega
    · have hcall := (run_isSome_iff _).mp (hfit _ (by
        rw [doWriteCalls, updateInfo, if_pos hresult]
        simp only [List.mem_append]
        exact Or.inr (List.mem_cons_of_mem _ (List.mem_cons_self ..))))
      omega
  · rintro ⟨huser, hcomplie⟩ call hcall
    simp only [doWriteCalls, List.mem_append] at hcall
    rcases hcall with ((hcall | hcall) | hcall) | hcall
    · exact hnumbers call (List.mem_append_left _ hcall)
    · simp only [updateUser, List.mem_cons, List.not_mem_nil, or_false] at hcall
      rcases hcall with rfl | rfl <;> refine (run_isSome_iff _).mpr ?_
      · omega
      · omega
    · exact hnumbers call (List.mem_append_right _ hcall)
    · unfold updateInfo at hcall
      rcases List.mem_cons.mp hcall with rfl | hcall
      · exact hdelete
      · split at hcall
        · rename_i hresult
          have hshort := hcomplie hresult
          rw [List.mem_singleton.mp hcall]
          refine (run_isSome_iff _).mpr ?_
          omega
        · exact absurd hcall List.not_mem_nil

/-- The statements that `doWrite` formats for a finished task fit in their buffers exactly when the
user name and the compile error are short enough. What counts are the bytes behind the conversion to
the code page and behind the escape of the quotes. The numbers always fit, since a decimal number of
32 bits has at most eleven characters. -/
theorem doWrite_fits_iff (page : CodePage) {escape : Text → Text} (hescape : RealEscape escape)
    {config : Config} (hconfig : config.IntCodes) (env : JudgeEnv) (testData : List Text)
    {solutionID problemID : Int} (hsolution : IsInt solutionID) (hproblem : IsInt problemID)
    (userName : Text) (language limitCompileTime limitTime limitMemory : Int) :
    let task := (JudgeCore.doJudge config env (TaskBase.new config testData solutionID problemID
      userName language limitCompileTime limitTime limitMemory)).2
    (∀ call ∈ doWriteCalls page escape config task, call.run.isSome) ↔
      ShortTexts page config task := by
  intro task
  have hnumbers : NumbersOk task := JudgeCore.numbersOk_doJudge hconfig env
    (JudgeCore.numbersOk_new config testData solutionID problemID userName language
      limitCompileTime limitTime limitMemory)
  -- a judge run keeps the ids of its task
  have hidentity : task.identity = (solutionID, problemID, userName) := by
    rw [JudgeCore.doJudge_identity, TaskBase.new, TaskBase.initializeData_identity]
    rfl
  simp only [TaskBase.identity, Prod.mk.injEq] at hidentity
  exact doWriteCalls_fit_iff page hescape hconfig hnumbers (by rw [hidentity.1]; exact hsolution)
    (by rw [hidentity.2.1]; exact hproblem)

/-- The constructor's codes are `int`s. -/
theorem intCodes_default : ({} : Config).IntCodes := by
  unfold Config.IntCodes IsInt
  decide

/-- A judge run that stops at a compile error with this output. -/
def compileErrorEnv (output : Text) : JudgeEnv where
  compile := { codeFileExists := true, created := true, exitCode := 1, output := some output }
  test _ := JudgeCore.reportOf [] []
  removeCode _ := .deleted
  removeCompilerOutput _ := .deleted
  removeExeOutput _ := .deleted
  removeExe _ := .deleted

/-- The finished task of a submission that does not compile. -/
def compileErrorTask (output : Text) : TaskBase :=
  (JudgeCore.doJudge {} (compileErrorEnv output)
    (TaskBase.new {} ["1.out".toList] 1 1 "bob".toList 0 10000 1 1)).2

/-- What the finished task says. -/
theorem compileErrorTask_eq (output : Text) :
    (compileErrorTask output).userName = "bob".toList ∧
      (compileErrorTask output).result = ({} : Config).JE_COMPLIE ∧
      (compileErrorTask output).solutionID = 1 ∧
      (compileErrorTask output).compileErrorStr =
        CppCompiler.readOutput output.length output :=
  ⟨rfl, rfl, rfl, rfl⟩

/-- The whole output of the compiler is kept, when it has no NUL. It is read in chunks, and a chunk
without a NUL is added as it is. By induction on the fuel. -/
theorem readOutput_eq_self (fuel : ℕ) {content : Text} (hnul : '\x00' ∉ content)
    (hfuel : content.length ≤ fuel) : CppCompiler.readOutput fuel content = content := by
  induction fuel generalizing content with
  | zero => rw [List.eq_nil_of_length_eq_zero (Nat.eq_zero_of_le_zero hfuel)]; rfl
  | succ fuel ih =>
    rw [CppCompiler.readOutput]
    cases hempty : content.isEmpty with
    | true => rw [List.isEmpty_iff.mp hempty]; rfl
    | false =>
      have hne : content ≠ [] := by
        intro hnil
        rw [hnil] at hempty
        cases hempty
      have hlength := List.length_pos_of_ne_nil hne
      -- no NUL in the chunk, so `fgets` hands over all thousand characters
      have hchunk : (content.take 1000).takeWhile (· != '\x00') = content.take 1000 := by
        rw [List.takeWhile_eq_self_iff]
        intro ch hch
        exact bne_iff_ne.mpr (ne_of_mem_of_not_mem (List.mem_of_mem_take hch) hnul)
      -- the rest is shorter, so the fuel that remains suffices
      have hrest : CppCompiler.readOutput fuel (content.drop 1000) = content.drop 1000 :=
        ih (fun hmem => hnul (List.mem_of_mem_drop hmem)) (by rw [List.length_drop]; omega)
      rw [if_neg Bool.false_ne_true, hchunk, hrest, List.take_append_drop]

/-- What the condition says about the submission that does not compile. -/
theorem shortTexts_compileErrorTask_iff {output : Text} (hnul : '\x00' ∉ output)
    (hpage : ∀ ch ∈ output, ch.toNat < 256) :
    ShortTexts latin1 {} (compileErrorTask output) ↔
      output.length + output.countP needsEscape ≤ 965 := by
  obtain ⟨hname, hresult, hsolution, herror⟩ := compileErrorTask_eq output
  have hkept : wcharToChar latin1 (compileErrorTask output).compileErrorStr = output := by
    rw [herror, readOutput_eq_self _ hnul (Nat.le_refl _)]
    exact wcharToChar_latin1 hnul hpage
  have hid : (formatInt (compileErrorTask output).solutionID).length = 1 := by
    rw [hsolution]
    rfl
  unfold ShortTexts
  rw [hkept, hid, hname]
  constructor
  · rintro ⟨-, hcomplie⟩
    have hle := hcomplie hresult
    omega
  · intro hle
    exact ⟨by decide, fun _ => by omega⟩

/-- One is an `int`. -/
theorem isInt_one : IsInt 1 := by
  unfold IsInt
  decide

/-- The characters of the error text below are in the code page 28591, one byte each. -/
theorem shortError_latin1 : ∀ ch ∈ "error: 'x'".toList, ch.toNat < 256 := by
  have hall : ("error: 'x'".toList.all fun ch => decide (ch.toNat < 256)) = true := by decide
  exact fun ch hch => of_decide_eq_true (List.all_eq_true.mp hall ch hch)

/-- A short compile error fits. The task is one that `doJudge` has returned. -/
theorem doWrite_fits_short_error :
    ((doWriteCalls latin1 escapeText {} (compileErrorTask "error: 'x'".toList)).all
      fun call => call.run.isSome) = true :=
  List.all_eq_true.mpr ((doWrite_fits_iff latin1 realEscape_escapeText intCodes_default
    (compileErrorEnv "error: 'x'".toList) ["1.out".toList] isInt_one isInt_one "bob".toList 0
    10000 1 1).mpr
      ((shortTexts_compileErrorTask_iff (by decide) shortError_latin1).mpr (by decide)))

/-- A compile error of 1000 characters does not fit. Nothing in it has to be escaped, and the buffer
has 1024 bytes. -/
theorem doWrite_not_fits_long_error :
    ¬∀ call ∈ doWriteCalls latin1 escapeText {} (compileErrorTask (List.replicate 1000 'x')),
      call.run.isSome := by
  -- the error text meets everything the exact condition asks except its length
  have hnul : '\x00' ∉ List.replicate 1000 'x' := by
    rw [List.mem_replicate]
    rintro ⟨-, hch⟩
    cases hch
  have hpage : ∀ ch ∈ List.replicate 1000 'x', ch.toNat < 256 := by
    intro ch hch
    rw [List.eq_of_mem_replicate hch]
    decide
  intro hfit
  have hnumbers : NumbersOk (compileErrorTask (List.replicate 1000 'x')) :=
    JudgeCore.numbersOk_doJudge intCodes_default _ (JudgeCore.numbersOk_new ..)
  have hshort := (doWriteCalls_fit_iff latin1 realEscape_escapeText intCodes_default hnumbers
    isInt_one isInt_one).mp hfit
  have hle := (shortTexts_compileErrorTask_iff hnul hpage).mp hshort
  -- the condition would bound a text of a thousand characters below that
  rw [List.length_replicate] at hle
  omega

end DBManager

end OnlineJudger
