import OnlineJudger.Acm.Utilities
import OnlineJudger.Lib.Decimal
import Mathlib.Data.Fin.Basic
import Mathlib.Logic.Function.Basic

/-!
# `OnlineJudger.Acm.ZNet`: the messages of a client

The model of `threadSend` and `threadReceiv` of `acm/ZNet.cpp`. A message travels behind a head,
which is a mark and the length in decimal. `threadSend` is a function from the messages in the
queue to the bytes on the wire. `threadReceiv` is a transition system, because each `recv` may
return fewer bytes than it is asked for, and 0 behind the last byte.

`threadReceiv` keeps its 32 bytes for the head across the messages, and nothing sets them in the
beginning. `recv` writes five of them, and the length is read up to the sixth.
-/

set_option autoImplicit false

namespace OnlineJudger

/-- `isspace`, in the locale of the start of a program. -/
def isSpace (ch : Char) : Bool :=
  ch == ' ' || ch == '\t' || ch == '\n' || ch == '\x0b' || ch == '\x0c' || ch == '\r'

/-- The number in front of the first character that is no digit. A text without digits in front
gives zero. -/
def leadingNumber (str : Text) : ℕ := Nat.ofDigitChars 10 (str.takeWhile Char.isDigit) 0

/-- `atoi`, for texts whose number fits in an `int`. It skips blanks and reads one sign. -/
def atoi (str : Text) : Int :=
  match str.dropWhile isSpace with
  | '-' :: digits => -leadingNumber digits
  | '+' :: digits => leadingNumber digits
  | digits => leadingNumber digits

/-- The conversion of a number to `int`. Beyond the range it wraps around. -/
def toInt32 (n : Int) : Int := n.bmod 4294967296

namespace ZClientBase

/-! ### The sender -/

/-- The message that ends `threadSend`. A caller can send the same text. -/
def exitMsg : Text := ['$', 'e', 'x', 'i', 't']

/-- `"@%4.4d"`. The precision counts digits only, so a negative number has its sign in front of four
of them. -/
def head (len : Int) : Text :=
  '@' :: (if len < 0 then ['-'] else []) ++ Lib.padded 4 len.natAbs

/-- The bytes that `::send` takes: `size` of the text that starts with the head. It fails for a
negative size, which a long message gives. -/
def packet (msg : Text) : Option Text :=
  let len := toInt32 msg.length
  let size := toInt32 (len + 5)
  if size < 0 then none else some ((head len ++ msg).take size.toNat)

/-- `threadSend`, for the messages in the queue. An empty message is not sent, and nothing is sent
behind the message that ends the thread. -/
def threadSend : List Text → Text
  | [] => []
  | msg :: msgs =>
    if msg = [] then threadSend msgs
    else if msg = exitMsg then []
    else (packet msg).elim [] fun bytes => bytes ++ threadSend msgs

/-! ### The receiver -/

/-- Where `threadReceiv` stands. It alternates between a head and the message behind it. -/
inductive ReceivPc where
  /-- Before the `recv` of a head. -/
  | head
  /-- Before the `recv` of a message of this length. -/
  | body (len : ℕ)
  | ended
  deriving DecidableEq, Repr

/-- `threadReceiv` and its connection: the buffer of the head, which is never cleared, the place of
the thread, what the peer has sent, and what has been delivered. -/
structure Receiver where
  head : Fin 32 → Char
  pc : ReceivPc := .head
  /-- What the peer has sent and `recv` has not returned. -/
  stream : Text
  /-- `recv` has returned 0 behind the last byte. -/
  closed : Bool := false
  /-- The calls of `onReceivMsg`. -/
  delivered : List Text := []
  /-- Those of them behind the end of the stream. -/
  late : List Text := []

/-- One step. `n` is what `recv` returns, and `fresh` is what a new buffer holds. Both are left
open, as the system leaves them. -/
inductive ReceivAction where
  | recv (n : ℕ) (fresh : Text)
  /-- `recv` returns `SOCKET_ERROR`. -/
  | fail
  /-- `isRunning` is false. -/
  | stop

namespace Receiver

/-- A receiver at its first `recv`. The buffer of the head holds whatever it held. -/
def start (head : Fin 32 → Char) (stream : Text) : Receiver where
  head
  stream

/-- The first bytes of the head are replaced. The others keep what an earlier head has left
there. -/
def fill (bytes : Text) (head : Fin 32 → Char) : Fin 32 → Char :=
  fun i => bytes.getD i (head i)

/-- The text that the length is read from. It ends behind the five bytes of a head, at the NUL that
is put there, or at one in the buffer. -/
def lengthText (head : Fin 32 → Char) : Text :=
  cString ((List.ofFn (Function.update head 6 '\x00')).drop 1)

/-- The buffer starts with the mark. It may be the mark of an earlier head. -/
def Marked (s : Receiver) : Prop := s.head 0 = '@'

/-- The code compares the byte. -/
instance (s : Receiver) : Decidable s.Marked := inferInstanceAs (Decidable (_ = _))

/-- The code behind the `recv` of a head. -/
def parseHead (s : Receiver) : Receiver :=
  -- a head without the mark is reported only, and the loop goes on
  if ¬s.Marked then s
  else
    let len := atoi (lengthText s.head)
    -- `new` of a negative size throws, or `recv` fails
    { s with
      head := Function.update s.head 6 '\x00'
      pc := if len < 0 then .ended else .body len.toNat }

/-- `onReceivMsg`. A message that is delivered behind the end of the stream is recorded as a late
one. -/
def deliver (msg : Text) (s : Receiver) : Receiver :=
  { s with
    pc := .head
    delivered := s.delivered ++ [msg]
    late := if s.closed then s.late ++ [msg] else s.late }

/-- `recv` returns `n` bytes. It returns 0 behind the last byte, or if it is asked for none. Any
smaller number than the one asked for is possible. -/
def Returns (asked n : ℕ) (s : Receiver) : Prop :=
  n ≤ asked ∧ n ≤ s.stream.length ∧ (n = 0 → asked = 0 ∨ s.stream = [])

/-- A step is computed, so what `recv` may return is decided. -/
instance (asked n : ℕ) (s : Receiver) : Decidable (s.Returns asked n) := by
  unfold Returns
  infer_instance

/-- The bytes that `recv` has returned are gone. A return of 0 says that the stream has ended. -/
def consume (asked n : ℕ) (s : Receiver) : Receiver :=
  { s with stream := s.stream.drop n, closed := s.closed || (n == 0 && asked != 0) }

/-- The `recv` at the place of the thread: of a head, or of the rest of a message. -/
def recv (n : ℕ) (fresh : Text) (s : Receiver) : Option Receiver :=
  match s.pc with
  | .head =>
    if s.Returns 5 n then
      some { s.consume 5 n with head := fill (s.stream.take n) s.head }.parseHead
    else none
  | .body len =>
    if s.Returns len n ∧ fresh.length = len then
      -- the buffer is new, and what `recv` does not write stays in it
      some ((s.consume len n).deliver (cString (s.stream.take n ++ fresh.drop n)))
    else none
  | .ended => none

/-- One step. `none` is a call that cannot return so, or a thread that has ended. -/
def step (s : Receiver) : ReceivAction → Option Receiver
  | .recv n fresh => s.recv n fresh
  | .fail => if s.pc = .ended then none else some { s with pc := .ended }
  | .stop => if s.pc = .head then some { s with pc := .ended } else none

/-- `recv` returns exactly the bytes that it is asked for. `none` is a call that waits, or one that
an action other than `recv` has to follow. -/
def recvAll (s : Receiver) : Option Receiver :=
  match s.pc with
  | .head => s.recv 5 []
  | .body len => s.recv len (List.replicate len '\x00')
  | .ended => none

/-- Receive as long as no `recv` waits, with fuel. This is the receiver of a peer that sends
everything and keeps the connection open. -/
def receive : ℕ → Receiver → Receiver
  | 0, s => s
  | fuel + 1, s =>
    match s.recvAll with
    | none => s
    | some s' => receive fuel s'

end Receiver

end ZClientBase

end OnlineJudger
