import OnlineJudger.Lib.FloatGrid
import OnlineJudger.Judger.Config

/-!
# `OnlineJudger.Judger.JudgeTask`: one submission to judge

The model of `TaskBase` in `Judger/JudgeTask.h` and `Judger/JudgeTask.cpp`. An `int` is an
`Int`. The pass rate is a `float`: it is kept as the rational number that the `float` is.
-/

set_option autoImplicit false

namespace OnlineJudger

/-- `WORK_DIR`. The string has a backslash at its end, so a name can stand right behind it. -/
def WORK_DIR : Text := "work\\".toList

/-- `getFileName` of `FileTool.cpp`: the name up to the last dot. A name without a dot is returned
whole. -/
def getFileName (filename : Text) : Text :=
  match filename.reverse.findIdx? (· == '.') with
  | none => filename
  | some k => filename.take (filename.length - 1 - k)

/-- `getLanguageExt`: the extension of a language, with its dot. -/
def getLanguageExt (config : Config) (t : Int) : Text :=
  if t = config.CL_GCC then ".c".toList
  else if t = config.CL_GPLUS then ".cpp".toList
  else if t = config.CL_JAVA then ".java".toList
  else ".unknown".toList

/-- `%d` of one `int`. `convertToString` gives the same text. -/
def formatInt (n : Int) : Text := (toString n).toList

/-- The binary digits of the mantissa of a `float`. -/
def FLT_MANT_DIG : Nat := 24

/-- `float(accepted) / count`: both `int`s are converted to `float`, and the quotient of the two is
rounded to a `float`. -/
def floatRatio (accepted count : Nat) : Rat := Lib.quotient FLT_MANT_DIG accepted count

/-- What is stored is a `float`: the rounding of the quotient always gives one, whatever the counts
are. -/
theorem isFloat_floatRatio (accepted n : Nat) :
    Lib.IsFloat FLT_MANT_DIG (floatRatio accepted n) :=
  Lib.isFloat_quotient (by decide) accepted n

/-- No `float` is nearer to the exact ratio, where the conversions are exact. -/
theorem abs_sub_floatRatio_le {accepted n : Nat} (h : accepted ≤ n) (hn : n ≤ 2 ^ FLT_MANT_DIG)
    {y : Rat} (hy : Lib.IsFloat FLT_MANT_DIG y) :
    |(accepted : Rat) / n - floatRatio accepted n| ≤ |(accepted : Rat) / n - y| := by
  unfold floatRatio
  rw [Lib.quotient_eq_nearest (by decide) (h.trans hn) hn]
  exact Lib.abs_sub_nearest_le (by decide)
    (div_nonneg (Nat.cast_nonneg accepted) (Nat.cast_nonneg n)) hy

/-- All tests accepted: the quotient is 1, with any rounding. Both counts are converted to the same
`float`. -/
theorem floatRatio_self {n : Nat} (hn : 0 < n) : floatRatio n n = 1 :=
  Lib.quotient_self (by decide) hn

/-- A test that is not accepted shows in the ratio: `1 - 2 ^ (-24)` is a `float`, and with up to `2
^ 24` tests the exact ratio is not above it. -/
theorem floatRatio_lt_one {accepted n : Nat} (h : accepted < n) (hn : n ≤ 2 ^ FLT_MANT_DIG) :
    floatRatio accepted n < 1 :=
  Lib.quotient_lt_one (by decide) h hn

/-- The ratio lies between 0 and 1. -/
theorem floatRatio_mem {accepted n : Nat} (h : accepted ≤ n) :
    0 ≤ floatRatio accepted n ∧ floatRatio accepted n ≤ 1 :=
  Lib.quotient_mem (by decide) h

/-- `TaskBase`, with the defaults of its constructor. The fields from `runTime` on are what the
judge writes, and those of the current test data are a cache. The pass rate is a `float`, kept as
the number that it stands for. -/
structure TaskBase where
  userName : Text
  solutionID : Int
  problemID : Int
  limitCompileTime : Int
  limitTime : Int
  limitMemory : Int
  language : Int
  runTime : Int := 0
  runMemory : Int := 0
  result : Int := 0
  passRate : Rat := 0
  testData : List Text := []
  curTestDataIndex : Int := 0
  curInputTestData : Text := []
  curOutputTestData : Text := []
  codeFile : Text := []
  compilerOutput : Text := []
  exeName : Text := []
  exeOutput : Text := []
  compileErrorStr : Text := []
  deriving DecidableEq, Repr

namespace TaskBase

/-- `getTestDataCount`. -/
def getTestDataCount (task : TaskBase) : Nat := task.testData.length

/-- `setTestDataIndex`. The test data is a list of expected outputs; the input lies next to each
one, with another extension. The same index again changes nothing. -/
def setTestDataIndex (task : TaskBase) (i : Nat) : TaskBase :=
  if (i : Int) = task.curTestDataIndex then task
  else
    let output := task.testData.getD i []
    { task with
      curTestDataIndex := i
      curOutputTestData := output
      curInputTestData := getFileName output ++ ".in".toList }

/-- `setResult`. -/
def setResult (task : TaskBase) (result : Int) : TaskBase := { task with result }

/-- The result is the new one. -/
@[simp] theorem setResult_result (task : TaskBase) (r : Int) : (task.setResult r).result = r := rfl

/-- `setRunTime`, in milliseconds. -/
def setRunTime (task : TaskBase) (time : Int) : TaskBase := { task with runTime := time }

/-- `setRunMemory`, in KB. -/
def setRunMemory (task : TaskBase) (memory : Int) : TaskBase := { task with runMemory := memory }

/-- `setPassRate`. The argument is a `float`. -/
def setPassRate (task : TaskBase) (r : Rat) : TaskBase := { task with passRate := r }

/-- `setCompileError`. -/
def setCompileError (task : TaskBase) (errorStr : Text) : TaskBase :=
  { task with compileErrorStr := errorStr }

/-- `initializeData`. `testData` is what `findFiles` finds for the problem. The names of the four
work files are made of the solution id, so two solutions never share one. -/
def initializeData (config : Config) (testData : List Text) (task : TaskBase) : TaskBase :=
  if task.solutionID = 0 then task
  else
    let tempName := formatInt task.solutionID
    let task :=
      { task with
        testData
        codeFile := WORK_DIR ++ tempName ++ getLanguageExt config task.language
        compilerOutput := WORK_DIR ++ tempName ++ ".txt".toList
        exeName := WORK_DIR ++ tempName ++ ".exe".toList
        exeOutput := WORK_DIR ++ tempName ++ ".out".toList }
    if task.getTestDataCount > 0 then
      -- -1 lets `setTestDataIndex` see a change
      { task with curTestDataIndex := -1 }.setTestDataIndex 0
    else task

/-- The constructor: the members, and then what `initializeData` makes of them. -/
def new (config : Config) (testData : List Text) (solutionID problemID : Int) (userName : Text)
    (language limitCompileTime limitTime limitMemory : Int) : TaskBase :=
  initializeData config testData
    { userName, solutionID, problemID, limitCompileTime, limitTime, limitMemory, language }

/-! ### What names the submission

No step of the judge changes it. -/

section Identity

variable (task : TaskBase)

/-- The solution, the problem and the user. They say which rows of the database belong to a task,
and no step of the judge changes them. -/
def identity : Int × Int × Text := (task.solutionID, task.problemID, task.userName)

/-- The next test is a test of the same submission. -/
@[simp] theorem setTestDataIndex_identity (i : Nat) :
    (task.setTestDataIndex i).identity = task.identity := by
  unfold setTestDataIndex
  split <;> rfl

/-- The constructor stores what it is given. -/
@[simp] theorem initializeData_identity (config : Config) (testData : List Text) :
    (task.initializeData config testData).identity = task.identity := by
  unfold initializeData
  split
  · rfl
  · dsimp only
    split
    · rw [setTestDataIndex_identity]
      rfl
    · rfl

end Identity

end TaskBase

end OnlineJudger
