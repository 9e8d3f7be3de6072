import OnlineJudger.Acm.ZProcessObjects
import OnlineJudger.Judger.Excuter

/-!
# `OnlineJudger.Judger.ExeRunner`: the runner with a job

The model of `ExeRunner::exc` of `Judger/Excuter.cpp`, over the job of `Acm/ZProcessObjects`.
`createExeRunner` returns the other runner.
-/

set_option autoImplicit false

namespace OnlineJudger

namespace ExeRunner

/-- The verdict on an exit code of the job. The codes 1 to 3 are those that `ZProcessJob::start`
sets itself, and a program can exit with them too. -/
def setVerdict (config : Config) (code : UInt32) (task : TaskBase) : TaskBase :=
  if code = 0 then task
  else if code = 1 then task.setResult config.JE_TIME_LIMITED
  else if code = 2 then task.setResult config.JE_MEMORY_LIMITED
  else if code = 3 then task.setResult config.JE_RUNTIME
  else task.setResult config.JE_RUNTIME

/-- `exc`. `none` is a call that does not return. The result of `start` is not read, so a process
that could not be put into the job is judged by the exit code that the object was made with. -/
def exc (config : Config) (created : CreateReport) (started : StartReport) (task : TaskBase) :
    Option (Bool × TaskBase) :=
  let process := ProcessObject.new 0 [] task.curInputTestData task.exeOutput
  match ZProcessJob.create { created with start_ := false } process with
  | none => none
  | some (false, _) => some (false, task.setResult config.JE_SYSTEM)
  | some (true, process) =>
    -- the result of `start` is not read
    match ZProcessJob.start started process with
    | none => none
    | some (_, process) =>
      let code := process.exitCode
      let task := task.setRunTime process.runTime
      let task := task.setRunMemory process.runMemory
      some (code = 0, setVerdict config code task)

end ExeRunner

end OnlineJudger
