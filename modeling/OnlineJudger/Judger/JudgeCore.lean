import OnlineJudger.Judger.Excuter

/-!
# `OnlineJudger.Judger.JudgeCore`: one judge run

The model of `Judger/JudgeCore.cpp`. `JudgeEnv` holds what the system answers during one
run: the compiler's report, one report for each test, and the results of the file removals.
-/

set_option autoImplicit false

namespace OnlineJudger

/-- The outcome of one `DeleteFile` call. `notFound` is `ERROR_FILE_NOT_FOUND`, and every other
error of the system is `failed`. -/
inductive DeleteResult where
  | deleted
  | notFound
  | failed
  deriving DecidableEq, Repr

/-- The loop of `safeRemoveFile` from attempt `i` on, with `attemp` attempts left. A failed attempt
is repeated, and the loop gives up when none is left. -/
def removeLoop (deleteFile : ℕ → DeleteResult) : ℕ → ℕ → Bool
  | 0, _ => false
  | attemp + 1, i =>
    match deleteFile i with
    | .deleted => true
    | .notFound => true
    | .failed => removeLoop deleteFile attemp (i + 1)

/-- `safeRemoveFile`: ten attempts. A missing file counts as removed. -/
def safeRemoveFile (deleteFile : ℕ → DeleteResult) : Bool := removeLoop deleteFile 10 1

/-- What the system answers during one test: the watched run, the two files that the matcher reads,
and the removal of the output. -/
structure TestReport where
  run : RunReport
  /-- The expected output file. -/
  srcFile : Option Text
  /-- The file the program wrote. -/
  destFile : Option Text
  /-- The attempts to remove the program's output file. -/
  removeOutput : ℕ → DeleteResult

/-- What the system answers during one judge run. Every answer is free, so a statement for all
environments is one for every program, every compiler and every disk. -/
structure JudgeEnv where
  compile : CompileReport
  test : ℕ → TestReport
  removeCode : ℕ → DeleteResult
  removeCompilerOutput : ℕ → DeleteResult
  removeExeOutput : ℕ → DeleteResult
  removeExe : ℕ → DeleteResult

namespace JudgeCore

/-- The local variables of the test loop, and the task that it changes. They start at zero with each
judge run. -/
structure LoopState where
  task : TaskBase
  maxTime : Int := 0
  maxMemory : Int := 0
  accepted : ℕ := 0

/-- Runner and matcher on one test: the changed variables, and whether the runner
succeeded. -/
def runTest (config : Config) (report : TestReport) (i : ℕ) (st : LoopState) :
    LoopState × Bool :=
  let task := st.task.setTestDataIndex i
  -- the matcher is called only behind a runner that succeeded
  let (result, task) := ExeDebugRunner.exc config report.run task
  if result then
    let (isMatch, task) := Matcher.exc config report.srcFile report.destFile task
    ({ st with task, accepted := if isMatch then st.accepted + 1 else st.accepted }, true)
  else ({ st with task }, false)

/-- The maxima over the tests so far. The task holds the values of the last test, also of one that
was not measured. -/
def updateMax (st : LoopState) : LoopState :=
  { st with
    maxTime := if st.maxTime < st.task.runTime then st.task.runTime else st.maxTime
    maxMemory := if st.maxMemory < st.task.runMemory then st.task.runMemory else st.maxMemory }

/-- The test loop from test `i` on, with `remaining` tests left. `false` is the early return
on a file that cannot be removed. -/
def judgeLoop (config : Config) (env : JudgeEnv) : ℕ → ℕ → LoopState → Bool × LoopState
  | 0, _, st => (true, st)
  | remaining + 1, i, st =>
    let (st, result) := runTest config (env.test i) i st
    -- the output is removed before the runner's result is looked at
    if !safeRemoveFile (env.test i).removeOutput then
      (false, { st with task := st.task.setResult config.JE_SYSTEM })
    else
      let st := updateMax st
      -- a runner that failed ends the loop, and a matcher that failed does not
      if result then judgeLoop config env remaining (i + 1) st else (true, st)

/-- `JudgeCore::doJudge`: compile, run every test, and store the pass rate and the maxima. An error
on the way returns false with the task as it is then, and its pass rate stays. -/
def doJudge (config : Config) (env : JudgeEnv) (task : TaskBase) : Bool × TaskBase :=
  let (compiled, task) := CppCompiler.exc config env.compile task
  if !compiled then (false, task)
  else
    let testCount := task.getTestDataCount
    -- a problem without test data is a system error
    if testCount = 0 then (false, task.setResult config.JE_SYSTEM)
    else
      let (finished, st) := judgeLoop config env testCount 0 { task }
      if !finished then (false, st.task)
      else
        let task := st.task.setPassRate (floatRatio st.accepted testCount)
        (true, (task.setRunTime st.maxTime).setRunMemory st.maxMemory)

/-- `JudgeCore::doCleanUp`: four removals, up to the first one that fails. The files behind that one
stay on the disk. -/
def doCleanUp (env : JudgeEnv) : Bool :=
  safeRemoveFile env.removeCode && safeRemoveFile env.removeCompilerOutput &&
    safeRemoveFile env.removeExeOutput && safeRemoveFile env.removeExe

/-- `JudgeCore::onTaskFinish`. The callback works on a state `σ`. Without one nothing is
reported. -/
def onTaskFinish {σ : Type} (id : ℕ) (finishCB : Option (ℕ → TaskBase → σ → σ))
    (task : TaskBase) (s : σ) : σ :=
  match finishCB with
  | some cb => cb id task s
  | none => s

/-- `JudgeCore::judge`: judge, report, clean up. The report does not wait for the cleanup. -/
def judge {σ : Type} (config : Config) (env : JudgeEnv) (id : ℕ)
    (finishCB : Option (ℕ → TaskBase → σ → σ)) (task : TaskBase) (s : σ) : Bool × σ :=
  let (_, task) := doJudge config env task
  -- the result of `doJudge` is dropped: every path reports
  (doCleanUp env, onTaskFinish id finishCB task s)

end JudgeCore

end OnlineJudger
