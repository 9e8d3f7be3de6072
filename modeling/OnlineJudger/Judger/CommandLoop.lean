import OnlineJudger.Acm.Utilities

/-!
# `OnlineJudger.Judger.CommandLoop`: the commands of the main thread

The loop of `main` in `Judger/main.cpp`. It ends with `exit`, and then the threads are stopped.

The console is a text that comes to an end. `getline` sets a flag of the stream when it gets there,
and when a line does not fit into the buffer. No one clears the flag, and from then on the buffer
is empty.

A program that `system` starts has the same console. What it would read is left out: here it reads
nothing, and the loop gets all lines.
-/

set_option autoImplicit false

namespace OnlineJudger

/-- `std::cin`. A flag of the stream is set if it is not `good`, and every later read then fails at
once. -/
structure Console where
  input : Text
  good : Bool := true
  deriving DecidableEq, Repr

/-- `getline` into a buffer of `count` characters. A line that does not fit is cut, and like the end
of the input it sets a flag. -/
def Console.getline (count : ℕ) (cin : Console) : Text × Console :=
  if !cin.good then ([], cin)
  else
    let line := cin.input.takeWhile (· ≠ '\n')
    if count - 1 < line.length then
      (line.take (count - 1), { input := cin.input.drop (count - 1), good := false })
    else
      match cin.input.dropWhile (· ≠ '\n') with
      | [] => (line, { input := [], good := false })
      | _ :: rest => (line, { input := rest })

/-- The loop of `main`: the console, the switch for the messages, and what it has handed to
`system`. -/
structure CommandLoop where
  cin : Console
  /-- `g_enableDBMDebugMsg`. -/
  dbmsg : Bool := false
  /-- The commands that went to `system`. -/
  system : List Text := []
  deriving DecidableEq, Repr

namespace CommandLoop

/-- The body of the loop behind `getline`. The flag is false for `break`, which only the line `exit`
reaches. Any other line is carried out or ignored. -/
def execute (str : Text) (s : CommandLoop) : Bool × CommandLoop :=
  match str with
  | [] => (true, s)
  | '$' :: cmd => (true, if cmd = [] then s else { s with system := s.system ++ [cmd] })
  | _ =>
    if str = "exit".toList then (false, s)
    else if str = "dbmsg on".toList then (true, { s with dbmsg := true })
    else if str = "dbmsg off".toList then (true, { s with dbmsg := false })
    else (true, s)

/-- One pass of the loop. The buffer is read up to its first NUL, and a failed `getline` leaves it
empty. -/
def pass (s : CommandLoop) : Bool × CommandLoop :=
  let (buffer, cin) := s.cin.getline 256
  execute (cString buffer) { s with cin }

/-- The loop, with fuel for the passes. `none` is a loop that has not come to its end in that many
passes. -/
def loop : ℕ → CommandLoop → Option CommandLoop
  | 0, _ => none
  | fuel + 1, s =>
    match s.pass with
    | (true, s) => loop fuel s
    | (false, s) => some s

end CommandLoop

end OnlineJudger
