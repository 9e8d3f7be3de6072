import OnlineJudger.LZData.LZData
import OnlineJudger.Lib.Handles
import Mathlib.Data.Fintype.Defs

/-!
# `OnlineJudger.Acm.ZProcessObjects`: process objects and their handles

The model of the classes of `Commen/ZProcess.h` and `acm/ZProcess.cpp`, and of `ZJobObject`: which
handles they open and close, the loop of a debugger, and the loop that waits for a job. What the
system answers is an argument. The limits of a job are in `Acm/ZProcess`.

`createFile` gives `INVALID_HANDLE_VALUE` for a file that cannot be opened, and this is not `NULL`.
-/

set_option autoImplicit false

namespace OnlineJudger

open Lib

/-- `ZProcess`, `ZProcessInOut`, `ZProcessDebug` and `ZProcessJob`. The last two are derived from
`ZProcessInOut`. -/
inductive ProcessClass where
  | process
  | inOut
  | debug
  | job
  deriving DecidableEq, Repr

/-- The members that hold a handle. `job` is the one of `m_job`, an object of its own with one
handle. -/
inductive HandleMember where
  | hProcess
  | hThread
  | hInput
  | hOutput
  | ioCPHandle
  | job
  deriving DecidableEq, Repr

/-- The members are finitely many, so the handles in them can be summed up. -/
instance : Fintype HandleMember where
  elems := {.hProcess, .hThread, .hInput, .hOutput, .ioCPHandle, .job}
  complete m := by cases m <;> decide

/-- An object of one of the classes. The members that the class does not have stay `NULL`. The
handles of the whole system are in it, since a handle can be lost. -/
structure ProcessObject where
  handles : Owner HandleMember
  inputFile : Text := []
  outputFile : Text := []
  exitCode : UInt32 := 0
  runTime : Int := 0
  runMemory : Int := 0

/-! ### What the system answers -/

/-- The answer that lets the process go on. -/
def DBG_CONTINUE : UInt32 := 0x00010002
/-- The answer that leaves an exception to the process. -/
def DBG_EXCEPTION_NOT_HANDLED : UInt32 := 0x80010001
/-- The code of a breakpoint. The system raises one when a debugged process starts. -/
def EXCEPTION_BREAKPOINT : UInt32 := 0x80000003

/-- `DEBUG_EVENT`. With some of them the system opens a file for the debugger, which the debugger
has to close. -/
inductive DebugEvent where
  | createProcess (hFile : Bool)
  | loadDll (hFile : Bool)
  | exception (code : UInt32)
  | exitProcess (exitCode : UInt32)
  | other
  deriving DecidableEq, Repr

/-- What a completion port says about a job. Some of the messages end the loop that waits for
them. -/
inductive JobMessage where
  | newProcess
  | endOfJobTime
  | endOfProcessTime
  | processMemoryLimit
  | jobMemoryLimit
  | activeProcessLimit
  | activeProcessZero
  | exitProcess
  | abnormalExitProcess
  | unknown
  deriving DecidableEq, Repr

/-- The answers to a call of `start`, for all classes together. A class looks at its own ones
only. -/
structure StartReport where
  /-- Up to the event behind which `WaitForDebugEvent` fails. -/
  events : List DebugEvent := []
  /-- `AssignProcessToJobObject` succeeds. -/
  assigned : Bool := true
  /-- The messages from the port. `none` is a call that fails. -/
  messages : List (Option JobMessage) := []
  /-- `TotalUserTime`, in 100 ns. -/
  totalUserTime : UInt64 := 0
  /-- `PeakProcessMemoryUsed`, in bytes. -/
  peakProcessMemoryUsed : UInt64 := 0
  /-- The results of `TerminateJobObject`. -/
  terminated : List Bool := [true]
  deriving DecidableEq, Repr

/-- The answers to a call of `create`, and those of the `start` at its end. -/
structure CreateReport where
  jobCreated : Bool := true
  portCreated : Bool := true
  inputOpened : Bool := true
  outputOpened : Bool := true
  processCreated : Bool := true
  /-- The argument of the call. -/
  start_ : Bool
  startReport : StartReport := {}
  deriving DecidableEq, Repr

namespace ProcessObject

/-- A new object. The handles of the others are open already, and its own members are all `NULL`. -/
def new (next : ℕ) (live : List ℕ) (inputFile outputFile : Text) : ProcessObject where
  handles := { next, live }
  inputFile
  outputFile

/-- `SAFE_CLOSE_HANDLE` of some members in order. -/
def safeClose (p : ProcessObject) (members : List HandleMember) : ProcessObject :=
  { p with handles := members.foldl Owner.safeClose p.handles }

/-- `CreateFile` for a file with this name, if it has one. A call that fails returns a value other
than `NULL`, and it is stored as it is. -/
def createFile (fileName : Text) (opened : Bool) (m : HandleMember) (o : Owner HandleMember) :
    Owner HandleMember :=
  if fileName = [] then o.assign m .null
  else if opened then o.acquireInto m
  else o.assign m .invalid

/-- `m_hInput = createInputFile()`. -/
def createInputFile (p : ProcessObject) (opened : Bool) : ProcessObject :=
  { p with handles := createFile p.inputFile opened .hInput p.handles }

/-- `m_hOutput = createOutputFile()`. -/
def createOutputFile (p : ProcessObject) (opened : Bool) : ProcessObject :=
  { p with handles := createFile p.outputFile opened .hOutput p.handles }

/-- The two handles of a created process. What the members held before is overwritten. -/
def createProcess (p : ProcessObject) : ProcessObject :=
  { p with handles := (p.handles.acquireInto .hProcess).acquireInto .hThread }

/-- The end of each `create`: `CreateProcess`, and `start` if it is asked for. The result of
`start` is not read. -/
def createAndStart (start : StartReport → ProcessObject → Option (Bool × ProcessObject))
    (a : CreateReport) (p : ProcessObject) : Option (Bool × ProcessObject) :=
  if !a.processCreated then some (false, p)
  else if a.start_ then (start a.startReport p.createProcess).map fun result => (true, result.2)
  else some (true, p.createProcess)

end ProcessObject

open ProcessObject

/-! ### `ZProcess` and `ZProcessInOut` -/

namespace ZProcess

/-- `ZProcess::start`, and that of `ZProcessInOut`. -/
def start (_ : StartReport) (p : ProcessObject) : Option (Bool × ProcessObject) := some (true, p)

/-- `ZProcess::create`. It does not ask whether there is a process already. -/
def create (a : CreateReport) (p : ProcessObject) : Option (Bool × ProcessObject) :=
  createAndStart start a p

end ZProcess

namespace ZProcessInOut

/-- `create` of the classes with redirected files, behind the creation of a job. The input is opened
first, and nothing asks whether a file could be opened. -/
def createRedirected (start : StartReport → ProcessObject → Option (Bool × ProcessObject))
    (a : CreateReport) (p : ProcessObject) : Option (Bool × ProcessObject) :=
  createAndStart start a ((p.createInputFile a.inputOpened).createOutputFile a.outputOpened)

/-- `ZProcessInOut::create`. A second call is refused as long as there is a process. -/
def create (a : CreateReport) (p : ProcessObject) : Option (Bool × ProcessObject) :=
  if p.handles.var .hProcess ≠ .null then some (false, p)
  else createRedirected ZProcess.start a p

end ZProcessInOut

/-! ### `ZProcessDebug` -/

namespace ZProcessDebug

/-- The file that the system opens for an event. The debugger gets its handle and stores it
nowhere. -/
def eventFile (hFile : Bool) (o : Owner HandleMember) : Owner HandleMember :=
  if hFile then o.acquire.2 else o

/-- The file of a created process is closed. -/
def closeEventFile (hFile : Bool) (o : Owner HandleMember) : Owner HandleMember :=
  if hFile then o.acquire.2.close o.acquire.1 else o

/-- The loop of `ZProcessDebug::start`: its result, the arguments of `ContinueDebugEvent`, and the
handles. -/
def debugLoop : List DebugEvent → UInt32 → Owner HandleMember →
    Bool × List UInt32 × Owner HandleMember
  | [], _, o => (true, [], o)
  | .exitProcess exitCode :: _, _, o => (exitCode = 0, [], o)
  | event :: events, status, o =>
    let (status, o) :=
      match event with
      | .createProcess hFile => (status, closeEventFile hFile o)
      -- nothing closes the file of a library
      | .loadDll hFile => (status, eventFile hFile o)
      -- the status is not set back for the next event
      | .exception code =>
        (if code = EXCEPTION_BREAKPOINT then status else DBG_EXCEPTION_NOT_HANDLED, o)
      | _ => (status, o)
    let (result, statuses, o) := debugLoop events status o
    (result, status :: statuses, o)

/-- `ZProcessDebug::start`. -/
def start (a : StartReport) (p : ProcessObject) : Option (Bool × ProcessObject) :=
  let p := p.safeClose [.hInput, .hOutput, .hThread]
  let (result, _, handles) := debugLoop a.events DBG_CONTINUE p.handles
  some (result, { p with handles })

/-- `ZProcessDebug::create`. -/
def create (a : CreateReport) (p : ProcessObject) : Option (Bool × ProcessObject) :=
  if p.handles.var .hProcess ≠ .null then some (false, p)
  else ZProcessInOut.createRedirected start a p

end ZProcessDebug

/-! ### `ZProcessJob` -/

namespace ZProcessJob

/-- The loop of `ZProcessJob::start`: the exit code. `last` is the message that a failing call
leaves in its place. `none` is a loop that still waits. -/
def jobLoop : List (Option JobMessage) → JobMessage → UInt32 → Option UInt32
  | [], _, _ => none
  | message :: messages, last, exitCode =>
    let message := message.getD last
    match message with
    | .newProcess => jobLoop messages message exitCode
    | .endOfJobTime => some 1
    | .endOfProcessTime => some 1
    | .processMemoryLimit => some 2
    | .jobMemoryLimit => some 2
    | .activeProcessLimit => jobLoop messages message exitCode
    | .activeProcessZero => some exitCode
    | .exitProcess => some exitCode
    | .abnormalExitProcess => some 3
    | .unknown => jobLoop messages message 99

/-- `while (!m_job.terminate(0))`. `none` is a loop that has not come to its end. -/
def terminateLoop : List Bool → Option Unit
  | [] => none
  | true :: _ => some ()
  | false :: terminated => terminateLoop terminated

/-- `ZProcessJob::start`. The members are closed in three groups, and the job comes last. The
numbers are read before that. -/
def start (a : StartReport) (p : ProcessObject) : Option (Bool × ProcessObject) :=
  if !a.assigned then some (false, p)
  else
    let p := p.safeClose [.hInput, .hOutput, .hThread]
    -- `ExecuteResult` is -1 before the first message
    match jobLoop a.messages .unknown p.exitCode with
    | none => none
    | some exitCode =>
      let p := { p with
        exitCode
        -- `LowPart` of the time
        runTime := (a.totalUserTime.toUInt32 / 10000).toInt32.toInt
        runMemory := (a.peakProcessMemoryUsed / 1024).toUInt32.toInt32.toInt }
      let p := p.safeClose [.hProcess, .ioCPHandle]
      match terminateLoop a.terminated with
      | none => none
      | some () => some (true, p.safeClose [.job])

/-- `m_job.create`, and whether it succeeds. A job that is there already is kept, and the call
fails. -/
def createJob (created : Bool) (p : ProcessObject) : Bool × ProcessObject :=
  if p.handles.var .job ≠ .null then (false, p)
  else if created then (true, { p with handles := p.handles.acquireInto .job })
  else (false, { p with handles := p.handles.assign .job .null })

/-- `m_ioCPHandle = CreateIoCompletionPort`. Its failure is not looked at, and `NULL` is stored. -/
def createPort (created : Bool) (p : ProcessObject) : ProcessObject :=
  { p with
    handles :=
      if created then p.handles.acquireInto .ioCPHandle else p.handles.assign .ioCPHandle .null }

/-- `ZProcessJob::create`. -/
def create (a : CreateReport) (p : ProcessObject) : Option (Bool × ProcessObject) :=
  if p.handles.var .hProcess ≠ .null then some (false, p)
  else
    match createJob a.jobCreated p with
    | (false, p) => some (false, p)
    | (true, p) => ZProcessInOut.createRedirected start a (createPort a.portCreated p)

end ZProcessJob

/-! ### The life of an object -/

/-- A call from outside, with the answers of the system to it. The other members leave the handles
alone. -/
inductive ProcessCall where
  | create (a : CreateReport)
  | start (a : StartReport)

namespace ProcessClass

/-- `create` of the class. -/
def create : ProcessClass → CreateReport → ProcessObject → Option (Bool × ProcessObject)
  | .process => ZProcess.create
  | .inOut => ZProcessInOut.create
  | .debug => ZProcessDebug.create
  | .job => ZProcessJob.create

/-- `start` of the class. -/
def start : ProcessClass → StartReport → ProcessObject → Option (Bool × ProcessObject)
  | .process => ZProcess.start
  | .inOut => ZProcess.start
  | .debug => ZProcessDebug.start
  | .job => ZProcessJob.start

/-- One call. -/
def step (cls : ProcessClass) (p : ProcessObject) : ProcessCall → Option ProcessObject
  | .create a => (cls.create a p).map (·.2)
  | .start a => (cls.start a p).map (·.2)

/-- The members that the destructors close, those of the derived classes first. -/
def closed : ProcessClass → List HandleMember
  | .process => [.hProcess, .hThread]
  | .inOut => [.hInput, .hOutput, .hProcess, .hThread]
  | .debug => [.hInput, .hOutput, .hProcess, .hThread]
  | .job => [.ioCPHandle, .job, .hInput, .hOutput, .hProcess, .hThread]

/-- The destructor. A handle that is in no member any more stays open. -/
def destroy (cls : ProcessClass) (p : ProcessObject) : ProcessObject := p.safeClose cls.closed

end ProcessClass

end OnlineJudger
