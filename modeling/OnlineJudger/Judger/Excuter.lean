import OnlineJudger.Acm.Watcher
import OnlineJudger.Acm.ZProcess
import OnlineJudger.Judger.JudgeTask

/-!
# `OnlineJudger.Judger.Excuter`: compiler, runner and matcher

The model of `Judger/Excuter.cpp`: `CppCompiler`, `ExeDebugRunner` (the runner that
`createExeRunner` returns) and `Matcher`, and the limits of `ExeRunner`. Each `exc` returns whether
it succeeded, and the changed task. What the system answers (files, processes) is an argument.
-/

set_option autoImplicit false

namespace OnlineJudger

/-- The bytes of a KB. -/
def KB_BYTES : UInt64 := 1024
/-- The bytes of a MB. -/
def MB_BYTES : UInt64 := 1048576
/-- A second, in units of 100 ns. -/
def S_100NS : UInt64 := 10000000
/-- A millisecond, in units of 100 ns. -/
def MS_100NS : UInt64 := 10000

/-- The conversion of a `uint64` to `int`: the low 32 bits, signed. A large number can become
negative. -/
def toInt (n : UInt64) : Int := n.toUInt32.toInt32.toInt

/-! ### `CppCompiler` -/

/-- What the system answers while a task is compiled. The answers are free, and `exc` looks at them
in this order. -/
structure CompileReport where
  codeFileExists : Bool
  created : Bool
  /-- The result of `waitExit`. -/
  exitCode : UInt32
  /-- The compiler output as the wide stream reads it, when the file can be opened. -/
  output : Option Text
  deriving DecidableEq, Repr

namespace CppCompiler

/-- The loop that reads the compiler output. Each `read` of 1000 bytes is appended as a C
string, so up to its first NUL. -/
def readOutput : ℕ → Text → Text
  | 0, _ => []
  | fuel + 1, content =>
    if content.isEmpty then []
    else (content.take 1000).takeWhile (· != '\x00') ++ readOutput fuel (content.drop 1000)

/-- `CppCompiler::exc`. A language without a compiler is a compile error, and so is an exit code
other than 0, whatever the output says. A file that cannot be read leaves the error text empty. -/
def exc (config : Config) (report : CompileReport) (task : TaskBase) : Bool × TaskBase :=
  if !report.codeFileExists then (false, task.setResult config.JE_SYSTEM)
  else if task.language ≠ config.CL_GCC ∧ task.language ≠ config.CL_GPLUS then
    (false, task.setResult config.JE_COMPLIE)
  else if !report.created then (false, task.setResult config.JE_SYSTEM)
  else if report.exitCode ≠ 0 then
    let errorStr :=
      match report.output with
      | some content => readOutput content.length content
      | none => []
    (false, (task.setResult config.JE_COMPLIE).setCompileError errorStr)
  else (true, task)

end CppCompiler

/-! ### `ExeRunner` -/

/-- The process that `ExeRunner::exc` makes for a task. The products are `int`s. -/
def ExeRunner.process (task : TaskBase) : ZProcessJob where
  limitTime := Int32.ofInt task.limitTime * 1000
  limitMemory := Int32.ofInt task.limitMemory * KB_BYTES.toUInt32.toInt32

/-! ### `ExeDebugRunner` -/

/-- What is left of a run when the watcher has ended. `exc` of the runner reads nothing else of
it. -/
inductive RunReport where
  /-- `process.create` failed. -/
  | createFailed
  /-- The watcher's final state, the result of `process.start`, and the exit code. -/
  | watched (watcher : Watcher) (noError : Bool) (code : UInt32)
  deriving DecidableEq, Repr

namespace ExeDebugRunner

/-- `maxTime`, in 100 ns. The product is one of `uint64`, unlike the one of the runner with a
job. -/
def maxTime (task : TaskBase) : UInt64 := UInt64.ofInt task.limitTime * S_100NS

/-- `maxMemory`, in bytes. It is a product of `uint64` too. -/
def maxMemory (task : TaskBase) : UInt64 := UInt64.ofInt task.limitMemory * MB_BYTES

/-- The watched run of a created process: the watcher gets the limits of the task, and the exit code
is read after `waitExit`. `none` when the watcher does not end in `fuel` rounds, and a watcher that
never ends gives `none` for every number of rounds. -/
def watch (process : ProcessTrace) (noError : Bool) (fuel : ℕ) (task : TaskBase) :
    Option RunReport :=
  match Watcher.doWatch process fuel
      { limitTime := maxTime task, limitMemory := maxMemory task } with
  | some (watcher, _, now) => some (.watched watcher noError (process.getExitCode now))
  | none => none

/-- `ExeDebugRunner::exc`. The measurements are stored before the verdict is made. A run within the
limits succeeds if the debugger saw no error and the exit code is 0. -/
def exc (config : Config) (report : RunReport) (task : TaskBase) : Bool × TaskBase :=
  match report with
  | .createFailed => (false, task.setResult config.JE_SYSTEM)
  | .watched watcher noError code =>
    let task := task.setRunTime (toInt (watcher.runTime / MS_100NS))
    let task := task.setRunMemory (toInt (watcher.runMemory / KB_BYTES))
    -- a run over both limits counts as one over the memory limit
    if watcher.isMemoryOut then (false, task.setResult config.JE_MEMORY_LIMITED)
    else if watcher.isTimeOut then (false, task.setResult config.JE_TIME_LIMITED)
    else if !noError || code != 0 then (false, task.setResult config.JE_RUNTIME)
    else (true, task)

end ExeDebugRunner

/-! ### `Matcher` -/

/-- The files are equal. -/
def MATCHER_ACCEPT : ℕ := 0
/-- A result that no call of the code returns. -/
def MATCHER_WRONG_ARGS : ℕ := 1
/-- The expected output cannot be read. -/
def MATCHER_NOT_EXIST_SRC : ℕ := 2
/-- The output of the program cannot be read. -/
def MATCHER_NOT_EXIST_DEST : ℕ := 3
/-- The files differ in more than blanks. -/
def MATCHER_WRONG_ANWSER : ℕ := 4
/-- The files differ in blanks only. -/
def MATCHER_PRESENT_ERROR : ℕ := 5

namespace Matcher

/-- `Matcher::isWhiteSpace`. A NUL is white space here. -/
def isWhiteSpace (ch : Char) : Bool := ch == '\x00' || " \t\r\n".toList.contains ch

/-- A loop over what is left of one buffer: only white space may be left. `none` is the early return
of a wrong answer, and any white space that is left makes a presentation error. -/
def skipRest : Text → ℕ → Option ℕ
  | [], result => some result
  | ch :: rest, _ => if isWhiteSpace ch then skipRest rest MATCHER_PRESENT_ERROR else none

/-- The loops of `compare` over two buffers, on what is left of them. Each round drops a
character of one buffer or of both. -/
def compareLoop : ℕ → Text → Text → ℕ → ℕ
  | fuel + 1, srcChr :: src, dstChr :: dst, result =>
    if srcChr = dstChr then compareLoop fuel src dst result
    -- a line end may be written with a carriage return on either side
    else if srcChr = '\r' ∧ dstChr = '\n' then compareLoop fuel src (dstChr :: dst) result
    else if dstChr = '\r' ∧ srcChr = '\n' then compareLoop fuel (srcChr :: src) dst result
    -- a blank that only one side has is skipped, and remembered as a presentation error
    else if isWhiteSpace srcChr then
      compareLoop fuel src (dstChr :: dst) MATCHER_PRESENT_ERROR
    else if isWhiteSpace dstChr then
      compareLoop fuel (srcChr :: src) dst MATCHER_PRESENT_ERROR
    else MATCHER_WRONG_ANWSER
  | _, src, dst, result =>
    match (skipRest src result).bind (skipRest dst) with
    | some result => result
    | none => MATCHER_WRONG_ANWSER

/-- `compare` of two buffers. The loops end, since each round shortens one of the texts, so the fuel
of both lengths suffices. -/
def compare (srcBuffer dstBuffer : Text) : ℕ :=
  compareLoop (srcBuffer.length + dstBuffer.length) srcBuffer dstBuffer MATCHER_ACCEPT

/-- `compare` of two files. `none` is a file that cannot be read. The expected one is read first. -/
def compareFiles (srcFile destFile : Option Text) : ℕ :=
  match srcFile, destFile with
  | none, _ => MATCHER_NOT_EXIST_SRC
  | some _, none => MATCHER_NOT_EXIST_DEST
  | some srcBuffer, some dstBuffer => compare srcBuffer dstBuffer

/-- `Matcher::exc`: the verdict of a test. A file that cannot be read is a system error. -/
def exc (config : Config) (srcFile destFile : Option Text) (task : TaskBase) : Bool × TaskBase :=
  let result := compareFiles srcFile destFile
  let task :=
    if result = MATCHER_ACCEPT then task.setResult config.JE_ACCEPT
    else if result = MATCHER_WRONG_ANWSER then task.setResult config.JE_WRONG_ANWSER
    else if result = MATCHER_PRESENT_ERROR then task.setResult config.JE_PRESENT
    else task.setResult config.JE_SYSTEM
  (result = MATCHER_ACCEPT, task)

end Matcher

end OnlineJudger
