import OnlineJudger.Judger.JudgeCore
import OnlineJudger.LZData.Store
import OnlineJudger.Lib.SharedStore

/-!
# `OnlineJudger.Judger.WorkDir`: the files of the tasks

Every task has four files in `WORK_DIR`: its code, the output of the compiler, the program, and
the output of the program. Here `tryLoadCode` and `JudgeCore::judge` are programs over the files,
so that several tasks can be judged side by side.

`TaskAnswers` is what comes from elsewhere. A compiler and a program write to their own files
only, and a compiler that runs into its time limit writes nothing more. Directories are no files:
that `makeDir` cannot make the directory is one reason for a file that cannot be opened.
-/

set_option autoImplicit false

namespace OnlineJudger

/-- A program over the files: each access reads one file and may change it, and what comes next
depends on what was read. A file that does not exist has no contents. -/
abbrev FileProg := Lib.Prog Text (Option Text)

/-- What the compiler leaves behind, whatever it did meanwhile: the program is there, or it is
not. -/
structure CompileOutcome where
  /-- The result of `waitExit`. -/
  exitCode : UInt32
  output : Text
  exe : Option Text
  deriving DecidableEq, Repr

/-- What the program leaves behind: the report of the watcher, and the file with its output. It may
depend on the program that was there when it was started. -/
structure RunOutcome where
  report : RunReport
  output : Text
  deriving DecidableEq, Repr

/-- What is not in the files of a task: the row with its source, the compiler and the program as
functions of what they read, and the refusals of the system. -/
structure TaskAnswers where
  /-- The column of the row that `tryLoadCode` fetches, if it fetches one. -/
  source : Option Text
  /-- The stream of `tryLoadCode` can be opened. -/
  codeOpened : Bool
  /-- What a stream in text mode reads of a file. -/
  readText : Text → Text
  /-- The output of the compiler can be opened. -/
  compilerOpened : Bool
  compilerCreated : Bool
  /-- The compiler, for the code and the program that is there already. -/
  compile : Option Text → Option Text → CompileOutcome
  /-- The output of the program can be opened, for each test. -/
  outputOpened : ℕ → Bool
  /-- The program in a test. -/
  run : ℕ → Option Text → RunOutcome
  /-- The expected output of a test, as it is read. -/
  expected : ℕ → Option Text
  /-- Whether the system refuses to remove a file, for each attempt. -/
  refuseOutput : ℕ → ℕ → Bool
  refuseCode : ℕ → Bool
  refuseCompilerOutput : ℕ → Bool
  refuseExeOutput : ℕ → Bool
  refuseExe : ℕ → Bool

namespace WorkDir

open Lib (Prog)

/-- A file that is written, if it can be opened. `std::ofstream` and `CREATE_ALWAYS` both drop what
was there. -/
def create (opened : Bool) (name content : Text) : FileProg Unit :=
  if opened then Prog.write name (some content) else pure ()

/-- `DeleteFile`. The system may refuse, because some process still has the file open. -/
def deleteFile (refuse : Bool) (name : Text) : FileProg DeleteResult :=
  .access name (fun content => if refuse then content else none) fun content =>
    .ret (if refuse then .failed else if content.isNone then .notFound else .deleted)

/-- The loop of `safeRemoveFile` from attempt `i` on, with `attemp` attempts left. It is the loop of
`Judger.JudgeCore`, with the attempts as accesses to the file. -/
def removeLoop (refuse : ℕ → Bool) (name : Text) : ℕ → ℕ → FileProg Bool
  | 0, _ => pure false
  | attemp + 1, i => do
    match ← deleteFile (refuse i) name with
    | .deleted => pure true
    | .notFound => pure true
    | .failed => removeLoop refuse name attemp (i + 1)

/-- `safeRemoveFile`: ten attempts, and a missing file counts as removed. Another task may run
between two attempts. -/
def safeRemoveFile (refuse : ℕ → Bool) (name : Text) : FileProg Bool := removeLoop refuse name 10 1

/-- `DBManager::tryLoadCode`. The stream is in text mode. Nothing reports a file that cannot be
opened. -/
def tryLoadCode (answers : TaskAnswers) (task : TaskBase) : FileProg Unit :=
  match answers.source with
  | none => pure ()
  | some code => create answers.codeOpened task.codeFile (textMode code)

/-- `CppCompiler::exc` from `waitExit` on. The compiler reads the source and writes the program and
its messages, and the error text is read back from the file. -/
def waitCompiler (config : Config) (answers : TaskAnswers) (task : TaskBase) :
    FileProg (Bool × TaskBase) := do
  let code ← Prog.read task.codeFile
  let exe ← Prog.read task.exeName
  let outcome := answers.compile code exe
  Prog.write task.exeName outcome.exe
  create answers.compilerOpened task.compilerOutput outcome.output
  if outcome.exitCode ≠ 0 then
    let output ← Prog.read task.compilerOutput
    let errorStr :=
      match output.map answers.readText with
      | some content => CppCompiler.readOutput content.length content
      | none => []
    pure (false, (task.setResult config.JE_COMPLIE).setCompileError errorStr)
  else pure (true, task)

/-- `CppCompiler::exc`: the tests in front of the compiler, and then the run of it. The output file
is made before the compiler is started. -/
def compilerExc (config : Config) (answers : TaskAnswers) (task : TaskBase) :
    FileProg (Bool × TaskBase) := do
  let code ← Prog.read task.codeFile
  if code.isNone then pure (false, task.setResult config.JE_SYSTEM)
  else if task.language ≠ config.CL_GCC ∧ task.language ≠ config.CL_GPLUS then
    pure (false, task.setResult config.JE_COMPLIE)
  else
    create answers.compilerOpened task.compilerOutput []
    if !answers.compilerCreated then pure (false, task.setResult config.JE_SYSTEM)
    else waitCompiler config answers task

/-- `ExeDebugRunner::exc` on test `i`. The output file is made anew, so nothing of the test before
is left in it. -/
def runnerExc (config : Config) (answers : TaskAnswers) (i : ℕ) (task : TaskBase) :
    FileProg (Bool × TaskBase) := do
  create (answers.outputOpened i) task.exeOutput []
  -- the program, up to the end of the watcher
  let exe ← Prog.read task.exeName
  let outcome := answers.run i exe
  create (answers.outputOpened i) task.exeOutput outcome.output
  pure (ExeDebugRunner.exc config outcome.report task)

/-- `Matcher::exc` on test `i`. The expected output is not one of the work files, so it comes with
the answers. -/
def matcherExc (config : Config) (answers : TaskAnswers) (i : ℕ) (task : TaskBase) :
    FileProg (Bool × TaskBase) := do
  let output ← Prog.read task.exeOutput
  pure (Matcher.exc config (answers.expected i) (output.map answers.readText) task)

/-- Runner and matcher on one test. The matcher is called only behind a runner that succeeded. -/
def runTest (config : Config) (answers : TaskAnswers) (i : ℕ) (st : JudgeCore.LoopState) :
    FileProg (JudgeCore.LoopState × Bool) := do
  let (result, task) ← runnerExc config answers i (st.task.setTestDataIndex i)
  if result then
    let (isMatch, task) ← matcherExc config answers i task
    pure ({ st with task, accepted := if isMatch then st.accepted + 1 else st.accepted }, true)
  else pure ({ st with task }, false)

/-- The test loop from test `i` on, with `remaining` tests left. The output of each test is removed
before the next one. -/
def judgeLoop (config : Config) (answers : TaskAnswers) :
    ℕ → ℕ → JudgeCore.LoopState → FileProg (Bool × JudgeCore.LoopState)
  | 0, _, st => pure (true, st)
  | remaining + 1, i, st => do
    let (st, result) ← runTest config answers i st
    let removed ← safeRemoveFile (answers.refuseOutput i) st.task.exeOutput
    if !removed then pure (false, { st with task := st.task.setResult config.JE_SYSTEM })
    else
      let st := JudgeCore.updateMax st
      if result then judgeLoop config answers remaining (i + 1) st else pure (true, st)

/-- `JudgeCore::doJudge`, with its answers read from the files. Its steps are those of
`Judger.JudgeCore`, and between two of them the files may be changed by others. -/
def doJudge (config : Config) (answers : TaskAnswers) (task : TaskBase) :
    FileProg (Bool × TaskBase) := do
  let (compiled, task) ← compilerExc config answers task
  if !compiled then pure (false, task)
  else
    let testCount := task.getTestDataCount
    if testCount = 0 then pure (false, task.setResult config.JE_SYSTEM)
    else
      let (finished, st) ← judgeLoop config answers testCount 0 { task }
      if !finished then pure (false, st.task)
      else
        let task := st.task.setPassRate (floatRatio st.accepted testCount)
        pure (true, (task.setRunTime st.maxTime).setRunMemory st.maxMemory)

/-- `JudgeCore::doCleanUp`: the four files of the task, up to the first one that cannot be
removed. -/
def doCleanUp (answers : TaskAnswers) (task : TaskBase) : FileProg Bool := do
  if !(← safeRemoveFile answers.refuseCode task.codeFile) then pure false
  else if !(← safeRemoveFile answers.refuseCompilerOutput task.compilerOutput) then pure false
  else if !(← safeRemoveFile answers.refuseExeOutput task.exeOutput) then pure false
  else safeRemoveFile answers.refuseExe task.exeName

/-- `tryLoadCode`, and then `JudgeCore::judge`: the task that is reported, and whether its files
are gone. -/
def judge (config : Config) (answers : TaskAnswers) (task : TaskBase) :
    FileProg (TaskBase × Bool) := do
  tryLoadCode answers task
  let (_, task) ← doJudge config answers task
  let cleaned ← doCleanUp answers task
  pure (task, cleaned)

end WorkDir

end OnlineJudger
