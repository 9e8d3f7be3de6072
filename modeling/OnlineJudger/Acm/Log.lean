import OnlineJudger.Acm.Utilities
import OnlineJudger.Lib.Decimal

/-!
# `OnlineJudger.Acm.Log`: the log of several threads

The model of `writeA`, `xwriteA`, `write` and `generateTimeHead` of `acm/Log.cpp`, step by step, for
any number of threads that call them. `xwriteA` formats its text into the buffer that all threads
share, under a mutex, and `write` writes a line under another one.

The formatted text of an `xwriteA` is the argument of the call. A text that does not fit in the
buffer ends the process. Both calls convert their bytes to a wide text before `write`.

`m_fLog` is a wide stream. It converts each character in the locale that `init` has given it, and at
a character that the locale does not have it fails: the rest of the text is lost, and so is
everything behind it, since nothing clears the failure. The file is kept as its characters before
the conversion.
-/

set_option autoImplicit false

namespace OnlineJudger

/-- The size of the buffer of `xwriteA`, with its NUL. A longer text does not fit, and `vsnprintf_s`
ends the process then. -/
def MAX_SIZE_BUFFER : ℕ := 4096

/-- `SYSTEMTIME`, as far as it is read. The date is not a part of a line. -/
structure SYSTEMTIME where
  wHour : ℕ
  wMinute : ℕ
  wSecond : ℕ
  deriving DecidableEq, Repr

namespace CLog

/-- What the machine gives to the log: the code page of `charToWChar`, and the characters that the
locale of `m_fLog` converts. -/
structure LogLocale where
  page : CodePage := latin1
  convertible : Char → Bool := fun ch => ch.toNat < 256

/-- `generateTimeHead`. The numbers have two digits at least, and the blank behind the bracket is
trimmed. -/
def generateTimeHead (systm : SYSTEMTIME) : Text :=
  trimPartStringA ('[' :: Lib.padded 2 systm.wHour ++ ':' :: Lib.padded 2 systm.wMinute ++
    ':' :: Lib.padded 2 systm.wSecond ++ "]: ".toList)

/-- A call of a thread. The text of `xwriteA` is the one that its format and its arguments make. -/
inductive LogCall where
  | writeA (buffer : Text)
  | xwriteA (text : Text)
  deriving DecidableEq, Repr

/-- Where a thread stands. `nested` is a `write` that `xwriteA` has called, which then has the mutex
of the format to give back. -/
inductive LogPc where
  | idle
  /-- In `xwriteA`, before `m_formatWriteMutex`. -/
  | formatLock (text : Text)
  /-- Before `vsnprintf_s`. -/
  | format (text : Text)
  /-- Before the buffer is copied into a `std::string`. -/
  | copy (text : Text)
  /-- In `write`, before the test of `m_bUsefull`. -/
  | write (nested : Bool) (buffer : Text)
  /-- Before `m_writeMutex`. -/
  | writeLock (nested : Bool) (buffer : Text)
  /-- Before each of the three things that `<<` writes. -/
  | header (nested : Bool) (buffer : Text)
  | body (nested : Bool) (header buffer : Text)
  | endl (nested : Bool) (header buffer : Text)
  /-- Before `m_writeMutex` is given back. -/
  | writeUnlock (nested : Bool)
  /-- Before `m_formatWriteMutex` is given back. -/
  | formatUnlock
  deriving DecidableEq, Repr

/-- A thread and the calls that it has still to make. They are fixed from the start, so a run
decides on their order only. -/
structure LogThread where
  pc : LogPc := .idle
  todo : List LogCall
  deriving DecidableEq, Repr

/-- A line of the log, and the thread that has written it. The header is the time at which it was
written. -/
structure LogLine where
  thread : ℕ
  header : Text
  buffer : Text
  deriving DecidableEq, Repr

/-- The log and its threads. The two mutexes hold the thread that owns them, and the list of lines
records what was given to the stream. -/
structure LogState where
  /-- `m_bUsefull`, after `init`. -/
  usefull : Bool
  /-- What has gone out to the file of `m_fLog`. -/
  file : Text
  /-- `m_fLog.good()`. -/
  good : Bool := true
  /-- `g_szMutiBuffer`. -/
  buffer : Text
  formatMutex : Option ℕ := none
  writeMutex : Option ℕ := none
  threads : List LogThread
  /-- The process has ended. -/
  ended : Bool := false
  /-- The lines that were given to `m_fLog`, in the order in which they were finished. -/
  lines : List LogLine := []
  deriving DecidableEq, Repr

/-- One step of a thread. `systm` is the time, if it is asked for, and it may be any time. -/
structure LogAction where
  thread : ℕ
  systm : SYSTEMTIME

/-- Behind `write`: back in `xwriteA`, or at the end of the call. A log that is not usable leaves in
the same way. -/
def LogPc.leave (nested : Bool) : LogPc := if nested then .formatUnlock else .idle

/-- The buffer behind `vsnprintf_s`. Behind the NUL it keeps what was there. -/
def formatInto (text buffer : Text) : Text := text ++ '\x00' :: buffer.drop (text.length + 1)

namespace LogState

/-- The state after `init`, before the first call. Every thread is idle, and the buffer holds
whatever it held. -/
def start (usefull : Bool) (file buffer : Text) (calls : List (List LogCall)) : LogState where
  usefull
  file
  buffer
  threads := calls.map fun todo => { todo }

/-- Thread `i` goes to another place, and nothing else changes. -/
def goto (s : LogState) (i : ℕ) (c : LogThread) (pc : LogPc) : LogState :=
  { s with threads := s.threads.set i { c with pc } }

/-- `<<` on `m_fLog`. At the first character that the locale does not have, the stream fails, and
from there on nothing is written. -/
def put (loc : LogLocale) (s : LogState) (text : Text) : LogState :=
  { s with
    file := s.file ++ if s.good then text.takeWhile loc.convertible else []
    good := s.good && text.all loc.convertible }

/-- The next step of thread `i`. `none` is a thread that waits for a mutex, or one without a
call. -/
def next (loc : LogLocale) (s : LogState) (i : ℕ) (systm : SYSTEMTIME) (c : LogThread) :
    Option LogState :=
  match c.pc with
  | .idle =>
    match c.todo with
    | [] => none
    | .writeA buffer :: todo =>
      some (s.goto i { c with todo } (.write false (charToWChar loc.page buffer)))
    | .xwriteA text :: todo => some (s.goto i { c with todo } (.formatLock text))
  | .formatLock text =>
    if s.formatMutex = none then some { s.goto i c (.format text) with formatMutex := some i }
    else none
  | .format text =>
    if text.length < MAX_SIZE_BUFFER then
      some { s.goto i c (.copy text) with buffer := formatInto text s.buffer }
    else some { s with ended := true }
  | .copy _ => some (s.goto i c (.write true (charToWChar loc.page (cString s.buffer))))
  | .write nested buffer =>
    some (s.goto i c (if s.usefull then .writeLock nested buffer else .leave nested))
  | .writeLock nested buffer =>
    if s.writeMutex = none then
      some { s.goto i c (.header nested buffer) with writeMutex := some i }
    else none
  | .header nested buffer =>
    let header := generateTimeHead systm
    some ((s.goto i c (.body nested header buffer)).put loc header)
  | .body nested header buffer =>
    some ((s.goto i c (.endl nested header buffer)).put loc buffer)
  | .endl nested header buffer =>
    some { (s.goto i c (.writeUnlock nested)).put loc ['\n'] with
      lines := s.lines ++ [⟨i, header, buffer⟩] }
  | .writeUnlock nested => some { s.goto i c (.leave nested) with writeMutex := none }
  | .formatUnlock => some { s.goto i c .idle with formatMutex := none }

/-- One step of the log. A thread that does not exist has no step, and nobody has one after the
process has ended. -/
def step (loc : LogLocale) (s : LogState) (a : LogAction) : Option LogState :=
  if s.ended then none
  else
    match s.threads[a.thread]? with
    | none => none
    | some c => s.next loc a.thread a.systm c

end LogState

end CLog

end OnlineJudger
