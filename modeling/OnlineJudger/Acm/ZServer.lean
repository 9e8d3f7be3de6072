import OnlineJudger.Acm.ZNet

/-!
# `OnlineJudger.Acm.ZServer`: the clients of a server

The model of `ZServer` and its `ZClientNode` in `acm/ZNet.cpp`, from the start of the accepting
thread on. Any thread may send, close and remove at any time, and every client has a thread that
takes the messages from its queue.

The operations of the queues are atomic, and so are those of the pool that take `m_clientLock`.
`checkDead` does not take it, and it looks at one client after the other. An operation of the pool
that meets it is a data race: it has no step here, so a run is one without such a race. The same
goes for the loop in which `close` calls the clients. Here these calls are steps of the clients,
which any thread may make.

An id is an `int` that wraps. `threadReceiv` is in `Acm/ZNet`; here it is one of the threads that
may call `onError`.
-/

set_option autoImplicit false

namespace OnlineJudger

open ZClientBase (exitMsg packet)

/-! ### A client -/

/-- Where `threadSend` stands. The test of `isRunning`, the wait in `get` and the call of `::send`
are places of their own, since the client can be stopped at each of them. -/
inductive SenderPc where
  /-- Before the test of `isRunning`. -/
  | check
  /-- Before `m_msgMgr.get`. -/
  | get
  /-- Before `::send`. -/
  | send (msg : Text)
  | ended
  deriving DecidableEq, Repr

/-- Where a call of `ZClientBase::close` stands. No lock is taken there, so several calls can stand
at different places. -/
inductive ClosePc where
  /-- Before the test of `m_socket`. -/
  | test
  /-- Before `m_running` is cleared. -/
  | mark
  /-- Before the exit message is sent. -/
  | push
  /-- Before `::closesocket`. -/
  | shut
  /-- Before `m_socket` is cleared. -/
  | clear
  deriving DecidableEq, Repr

/-- `ZClientNode`: its fields, its two queues as they are and as they were filled, and where its
threads stand. -/
structure ZClientNode where
  id : Int32
  running : Bool := true
  /-- `m_socket` is not 0. -/
  socket : Bool := true
  /-- `::closesocket` has not been called. -/
  connected : Bool := true
  /-- `m_msgMgr`. -/
  msgMgr : List Text := []
  sender : SenderPc := .check
  /-- The calls of `close` that have not returned. -/
  closers : List ClosePc := []
  /-- The bytes that `::send` has taken. -/
  wire : Text := []
  /-- The messages of `ZServer::send`. -/
  requests : List Text := []
  /-- All messages that ever were in the queue, in order. -/
  sent : List Text := []
  deriving DecidableEq, Repr

/-- A step of a thread that works on a client: of its sender, of the one that reports an error, or
of a call of `close`. -/
inductive ClientAction where
  | senderCheck
  | senderGet
  /-- `ok` is false if `::send` returns `SOCKET_ERROR`. -/
  | senderSend (ok : Bool)
  | onError
  | close
  /-- Step of a call of `close`. -/
  | closeStep (k : ℕ)
  deriving DecidableEq, Repr

namespace ZClientNode

/-- `send`: the message joins the queue. Nothing tests whether the client is still running, so a
message may join a queue that nobody reads any more. -/
def send (msg : Text) (n : ZClientNode) : ZClientNode :=
  { n with msgMgr := n.msgMgr ++ [msg], sent := n.sent ++ [msg] }

/-- `close` is called. Its steps are those of `closeStep`, and several calls may be under way at
once. -/
def close (n : ZClientNode) : ZClientNode := { n with closers := n.closers ++ [.test] }

/-- `onError`: `m_running` is cleared, and then `close` is called. The sender sees the flag at its
next test. -/
def onError (n : ZClientNode) : ZClientNode := { n with running := false }.close

/-- The test of `isRunning`, which looks at the server, too. -/
def senderCheck (serverRunning : Bool) (n : ZClientNode) : Option ZClientNode :=
  match n.sender with
  | .check => some { n with sender := if n.running && serverRunning then .get else .ended }
  | _ => none

/-- `m_msgMgr.get`, and the tests of the message. An empty message is passed over, and the exit
message ends the thread. -/
def senderGet (n : ZClientNode) : Option ZClientNode :=
  match n.sender, n.msgMgr with
  | .get, msg :: msgMgr =>
    some { n with
      msgMgr
      sender := if msg = [] then .check else if msg = exitMsg then .ended else .send msg }
  | _, _ => none

/-- `::send` of a packet. It fails on a closed socket, and for a packet that has no size. -/
def sendPacket (bytes : Option Text) (ok : Bool) (n : ZClientNode) : ZClientNode :=
  match bytes, ok && n.connected with
  | some bytes, true => { n with wire := n.wire ++ bytes, sender := .check }
  | _, _ => { n with sender := .ended }.onError

/-- The sender sends the message that it has taken. It goes out even if the client has been stopped
meanwhile. -/
def senderSend (ok : Bool) (n : ZClientNode) : Option ZClientNode :=
  match n.sender with
  | .send msg => some (n.sendPacket (packet msg) ok)
  | _ => none

/-- The next step of a call of `close`. Between the test of `m_socket` and its end another call may
get in. -/
def closeStep (k : ℕ) (n : ZClientNode) : Option ZClientNode :=
  match n.closers[k]? with
  | none => none
  | some .test =>
    some { n with closers := if n.socket then n.closers.set k .mark else n.closers.eraseIdx k }
  | some .mark => some { n with running := false, closers := n.closers.set k .push }
  | some .push => some { n.send exitMsg with closers := n.closers.set k .shut }
  | some .shut => some { n with connected := false, closers := n.closers.set k .clear }
  | some .clear => some { n with socket := false, closers := n.closers.eraseIdx k }

/-- One step of a thread that works on a client. -/
def step (serverRunning : Bool) (n : ZClientNode) : ClientAction → Option ZClientNode
  | .senderCheck => n.senderCheck serverRunning
  | .senderGet => n.senderGet
  | .senderSend ok => n.senderSend ok
  | .onError => some n.onError
  | .close => some n.close
  | .closeStep k => n.closeStep k

end ZClientNode

/-! ### The server -/

/-- Where `threadProcAccept` stands. It is the only thread that adds clients to the pool, and the
one that takes the dead ones out. -/
inductive AcceptPc where
  /-- Before the test of `isRunning`. -/
  | check
  /-- Before `::accept`. -/
  | accept
  /-- Before `addClient`. -/
  | add (node : ℕ)
  /-- Before `checkDead`. -/
  | dead
  /-- In `remove_if`, with the clients that it has not looked at. -/
  | walk (rest : List ℕ)
  | ended
  deriving DecidableEq, Repr

/-- A call of `ZServer::send` that has found its client. The client may leave the pool before the
message is in its queue. -/
structure PendingSend where
  id : Int32
  /-- The number of the client. -/
  node : ℕ
  msg : Text
  deriving DecidableEq, Repr

/-- `ZServer`. A client that was removed from the pool is kept in `nodes`, because its threads and
the calls that have found it still work on it. -/
structure ZServer where
  running : Bool := true
  /-- `s_idAllocator`. -/
  idAllocator : Int32 := 100
  /-- All clients that ever were accepted. -/
  nodes : List ZClientNode := []
  /-- The numbers of the clients in `m_pool`. -/
  pool : List ℕ := []
  accepting : AcceptPc := .check
  /-- The calls of `send` that have not returned. -/
  sends : List PendingSend := []
  deriving DecidableEq, Repr

/-- A step of a thread of the server, or of one that works on a client. What the network answers is
in the actions. -/
inductive ServerAction where
  | acceptCheck
  /-- `ok` is false if `::accept` returns `SOCKET_ERROR`. -/
  | accept (ok : Bool)
  | addClient
  | checkDead
  /-- `remove_if` looks at the next client, or returns. -/
  | removeDead
  | removeClient (node : ℕ)
  | send (id : Int32) (msg : Text)
  /-- Step of a call of `send`. -/
  | sendStep (k : ℕ)
  /-- `close` clears `m_running`. -/
  | close
  | client (node : ℕ) (a : ClientAction)
  deriving DecidableEq, Repr

namespace ZServer

/-- `ZClientNode::isRunning`: the flag of the client and that of the server. A client is dead when
one of them is cleared. -/
def nodeRunning (s : ZServer) (i : ℕ) : Bool :=
  (s.nodes[i]?).any fun n => n.running && s.running

/-- `remove_if` is at work on the pool, without the lock. Until it is done, no other call may touch
the list. -/
def walking (s : ZServer) : Bool :=
  match s.accepting with
  | .walk _ => true
  | _ => false

/-- `getClient`: the first client in the pool with this id. The ids are different as long as the
allocator has not wrapped. -/
def getClient (s : ZServer) (id : Int32) : Option ℕ :=
  s.pool.find? fun i => (s.nodes[i]?).any fun n => n.id == id

/-- `send` is called. It looks for the client under the lock of the pool, and a message to an
unknown id is dropped. The message itself comes into the queue later, by `sendStep`. -/
def send (s : ZServer) (id : Int32) (msg : Text) : ZServer :=
  match s.getClient id with
  | none => s
  | some node => { s with sends := s.sends ++ [{ id, node, msg }] }

/-- The message of a call of `send` comes into the queue. The client may have been stopped
meanwhile. -/
def sendStep (s : ZServer) (k : ℕ) : Option ZServer :=
  match s.sends[k]? with
  | none => none
  | some p =>
    some { s with
      nodes := s.nodes.modify p.node fun n =>
        { n.send p.msg with requests := n.requests ++ [p.msg] }
      sends := s.sends.eraseIdx k }

/-- One step of a thread of the server. The calls that change the pool have no step while
`remove_if` is at work on it. -/
def step (s : ZServer) : ServerAction → Option ZServer
  | .acceptCheck =>
    if s.accepting = .check then
      some { s with accepting := if s.running then .accept else .ended }
    else none
  | .accept ok =>
    if s.accepting = .accept then
      if ok then
        some { s with
          idAllocator := s.idAllocator + 1
          nodes := s.nodes ++ [{ id := s.idAllocator + 1 }]
          accepting := .add s.nodes.length }
      else some { s with accepting := .check }
    else none
  | .addClient =>
    match s.accepting with
    | .add i => some { s with pool := s.pool ++ [i], accepting := .dead }
    | _ => none
  | .checkDead =>
    if s.accepting = .dead then some { s with accepting := .walk s.pool } else none
  | .removeDead =>
    match s.accepting with
    | .walk (i :: rest) =>
      some { s with
        pool := if s.nodeRunning i then s.pool else s.pool.filter (· ≠ i)
        accepting := .walk rest }
    | .walk [] => some { s with accepting := .check }
    | _ => none
  | .removeClient i =>
    if s.walking then none else some { s with pool := s.pool.filter (· ≠ i) }
  | .send id msg => if s.walking then none else some (s.send id msg)
  | .sendStep k => s.sendStep k
  | .close => some { s with running := false }
  | .client i a =>
    match s.nodes[i]? with
    | none => none
    | some n => (n.step s.running a).map fun n => { s with nodes := s.nodes.set i n }

end ZServer

end OnlineJudger
