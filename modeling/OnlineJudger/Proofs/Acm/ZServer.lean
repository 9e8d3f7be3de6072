import Mathlib.Data.List.Nodup
import OnlineJudger.Acm.ZServer
import OnlineJudger.Lib.Run

/-!
# `OnlineJudger.Proofs.Acm.ZServer`: what the clients of a server get

Accepting, sending, errors and closing in any order.

* `ClientInv`: what a client has sent is what `threadSend` sends for the first messages of its
  queue, and the exit message is in the queue as long as the sender may wait for it.
* `ServerInv`: each client has the id of its number (`clientId`), and the clients are in the pool
  once at most. The ids are different as long as they do not wrap.
* `clients_served`: a client gets what was sent to its id.
* `stopped_client`: a client that is stopped gets one more message at most, and leaves the pool.
-/

set_option autoImplicit false

namespace OnlineJudger

open Lib
open ZClientBase (exitMsg packet threadSend)

/-! ### The messages that the sender has behind it -/

/-- The sender goes on behind all of them. -/
def Passed (msgs : List Text) : Prop :=
  ∀ m ∈ msgs, m ≠ exitMsg ∧ (m = [] ∨ (packet m).isSome = true)

/-- Two parts of a queue. -/
theorem passed_append {t u : List Text} : Passed (t ++ u) ↔ Passed t ∧ Passed u :=
  List.forall_mem_append

/-- One message. -/
theorem passed_singleton {m : Text} :
    Passed [m] ↔ m ≠ exitMsg ∧ (m = [] ∨ (packet m).isSome = true) := List.forall_mem_singleton

/-- What is sent for two parts of a queue, when the sender gets behind the first. -/
theorem threadSend_append {t : List Text} (h : Passed t) (u : List Text) :
    threadSend (t ++ u) = threadSend t ++ threadSend u := by
  induction t with
  | nil => rfl
  | cons m t ih =>
    obtain ⟨⟨hexit, hm⟩, ht⟩ := List.forall_mem_cons.mp h
    rw [List.cons_append, threadSend, threadSend]
    split_ifs with hempty
    · exact ih ht
    · obtain ⟨bytes, hbytes⟩ := Option.isSome_iff_exists.mp (hm.resolve_left hempty)
      rw [hbytes]
      show bytes ++ threadSend (t ++ u) = bytes ++ threadSend t ++ threadSend u
      rw [ih ht, List.append_assoc]

/-- Nothing is sent behind an exit message. -/
theorem threadSend_append_exit (t u : List Text) :
    threadSend (t ++ exitMsg :: u) = threadSend t := by
  induction t with
  | nil =>
    show threadSend (exitMsg :: u) = []
    rw [threadSend, if_neg (by decide), if_pos rfl]
  | cons m t ih =>
    rw [List.cons_append, threadSend, threadSend, ih]

/-- One more message. -/
theorem threadSend_concat {t : List Text} (h : Passed t) {m bytes : Text} (hempty : m ≠ [])
    (hexit : m ≠ exitMsg) (hbytes : packet m = some bytes) :
    threadSend (t ++ [m]) = threadSend t ++ bytes := by
  rw [threadSend_append h, threadSend, if_neg hempty, if_neg hexit, hbytes]
  show _ ++ (bytes ++ []) = _
  rw [List.append_nil]

/-! ### A client -/

namespace ZClientNode

/-- What has become of the messages that the sender has taken. -/
def Sends (n : ZClientNode) (taken : List Text) : Prop :=
  match n.sender with
  | .check | .get => Passed taken ∧ n.wire = threadSend taken
  | .send msg => ∃ before, taken = before ++ [msg] ∧ msg ≠ [] ∧ msg ≠ exitMsg ∧ Passed before ∧
      n.wire = threadSend before
  | .ended => ∃ before, before <+: taken ∧ n.wire = threadSend before

/-- A call of `close` has not sent its exit message. -/
def early : ClosePc → Bool
  | .test | .mark | .push => true
  | .shut | .clear => false

/-- A client between two steps. -/
structure ClientInv (n : ZClientNode) : Prop where
  sends : ∃ taken, n.sent = taken ++ n.msgMgr ∧ n.Sends taken
  /-- Until an exit message comes, the messages of the server come into the queue. -/
  requests : n.sent = n.requests ∨
    ∃ before after, n.sent = before ++ exitMsg :: after ∧ before <+: n.requests
  /-- Behind a call of `close` the exit message has been sent. -/
  late : ∀ pc ∈ n.closers, early pc = false → exitMsg ∈ n.sent
  socket : n.socket = false → exitMsg ∈ n.sent
  /-- A client that is stopped is being closed. -/
  stopped : n.running = false → exitMsg ∈ n.sent ∨ n.closers ≠ []

variable {n n' : ZClientNode}

/-- A new client has sent nothing. -/
theorem clientInv_new (id : Int32) : ClientInv { id } where
  sends := ⟨[], rfl, List.forall_mem_nil _, rfl⟩
  requests := .inl rfl
  late _ h := by cases h
  socket h := by cases h
  stopped h := by cases h

/-- The sender moves, and nothing else. -/
theorem ClientInv.sender (h : ClientInv n) {sender : SenderPc} {msgMgr : List Text} {wire : Text}
    (hsends : ∃ taken, n.sent = taken ++ msgMgr ∧
      Sends { n with sender, msgMgr, wire } taken) :
    ClientInv { n with sender, msgMgr, wire } :=
  ⟨hsends, h.requests, h.late, h.socket, h.stopped⟩

/-- The sender looks at the flags. -/
theorem ClientInv.senderCheck (h : ClientInv n) {serverRunning : Bool}
    (hstep : n.senderCheck serverRunning = some n') : ClientInv n' := by
  unfold ZClientNode.senderCheck at hstep
  split at hstep
  · next hcheck =>
    obtain ⟨taken, hsent, hsends⟩ := h.sends
    rw [Sends, hcheck] at hsends
    rw [Option.some.injEq] at hstep
    subst hstep
    refine h.sender ⟨taken, hsent, ?_⟩
    cases hrunning : n.running && serverRunning with
    | true => exact hsends
    | false => exact ⟨taken, List.prefix_refl _, hsends.2⟩
  · cases hstep

/-- The sender takes a message, which it may have to send. An empty one is passed at once, and the
exit message ends the loop of the sender. -/
theorem ClientInv.senderGet (h : ClientInv n) (hstep : n.senderGet = some n') :
    ClientInv n' := by
  unfold ZClientNode.senderGet at hstep
  split at hstep
  · next msg msgMgr hget hqueue =>
    obtain ⟨taken, hsent, hsends⟩ := h.sends
    rw [Sends, hget] at hsends
    rw [hqueue] at hsent
    rw [Option.some.injEq] at hstep
    subst hstep
    refine h.sender ⟨taken ++ [msg], by rw [hsent, List.append_assoc]; rfl, ?_⟩
    by_cases hempty : msg = []
    · -- an empty message is skipped
      subst hempty
      rw [if_pos rfl]
      refine ⟨passed_append.mpr ⟨hsends.1, passed_singleton.mpr ⟨by decide, .inl rfl⟩⟩, ?_⟩
      rw [threadSend_append hsends.1]
      exact hsends.2.trans (List.append_nil _).symm
    rw [if_neg hempty]
    by_cases hexit : msg = exitMsg
    · rw [if_pos hexit]
      exact ⟨taken, List.prefix_append _ _, hsends.2⟩
    · rw [if_neg hexit]
      exact ⟨taken, rfl, hempty, hexit, hsends.1, hsends.2⟩
  · cases hstep

/-- `m_running` is cleared by a thread that closes the client. -/
theorem ClientInv.onError (h : ClientInv n) : ClientInv n.onError where
  sends := h.sends
  requests := h.requests
  late pc hpc hlate := by
    rcases List.mem_append.mp hpc with hpc | hpc
    · exact h.late pc hpc hlate
    · rw [List.mem_singleton.mp hpc] at hlate
      cases hlate
  socket := h.socket
  stopped _ := .inr (List.append_ne_nil_of_right_ne_nil _ (List.cons_ne_nil _ _))

/-- A call of `close` begins. -/
theorem ClientInv.close (h : ClientInv n) : ClientInv n.close :=
  ⟨h.sends, h.requests, h.onError.late, h.socket, fun _ => h.onError.stopped rfl⟩

/-- A packet is sent as a whole, or the client is closed. -/
theorem sendPacket_cases (bytes : Option Text) (ok : Bool) (n : ZClientNode) :
    n.sendPacket bytes ok = { n with sender := .ended }.onError ∨
      ∃ packet, bytes = some packet ∧
        n.sendPacket bytes ok = { n with wire := n.wire ++ packet, sender := .check } := by
  unfold sendPacket
  split
  · next packet _ => exact .inr ⟨packet, rfl, rfl⟩
  · exact .inl rfl

/-- The sender sends what it has taken, or closes the client. It closes the client if there is no
packet for the message, or if `::send` fails. -/
theorem ClientInv.senderSend (h : ClientInv n) {ok : Bool} (hstep : n.senderSend ok = some n') :
    ClientInv n' := by
  unfold ZClientNode.senderSend at hstep
  split at hstep
  · next msg hsend =>
    -- the sender stands behind the messages in front of this one
    obtain ⟨taken, hsent, hsends⟩ := h.sends
    rw [Sends, hsend] at hsends
    obtain ⟨before, rfl, hempty, hexit, hpassed, hwire⟩ := hsends
    rw [Option.some.injEq] at hstep
    rcases sendPacket_cases (packet msg) ok n with hfailed | ⟨bytes, hbytes, hsucceeded⟩
    -- `sendPacket` has failed, and the client is closed
    · rw [← hstep, hfailed]
      exact ClientInv.onError (h.sender ⟨_, hsent, before, List.prefix_append _ _, hwire⟩)
    -- the packet has gone out, so the sender has passed the message
    · rw [← hstep, hsucceeded]
      have hsome : (packet msg).isSome = true := by rw [hbytes, Option.isSome_some]
      refine h.sender ⟨_, hsent, ?_, ?_⟩
      · exact passed_append.mpr ⟨hpassed, passed_singleton.mpr ⟨hexit, .inr hsome⟩⟩
      · rw [threadSend_concat hpassed hempty hexit hbytes, hwire]
  · cases hstep

/-- A message comes into the queue. -/
theorem ClientInv.send (h : ClientInv n) (msg : Text) {requests : List Text}
    (hrequests : n.sent ++ [msg] = requests ∨
      ∃ before after, n.sent ++ [msg] = before ++ exitMsg :: after ∧ before <+: requests) :
    ClientInv { n.send msg with requests } where
  sends := by
    obtain ⟨taken, hsent, hsends⟩ := h.sends
    refine ⟨taken, ?_, hsends⟩
    show n.sent ++ [msg] = taken ++ (n.msgMgr ++ [msg])
    rw [hsent, List.append_assoc]
  requests := hrequests
  late pc hpc hlate := List.mem_append_left _ (h.late pc hpc hlate)
  socket hsocket := List.mem_append_left _ (h.socket hsocket)
  stopped hstopped := (h.stopped hstopped).imp_left (List.mem_append_left _)

/-- A message of the server. -/
theorem ClientInv.request (h : ClientInv n) (msg : Text) :
    ClientInv { n.send msg with requests := n.requests ++ [msg] } := by
  refine h.send msg (h.requests.imp (fun heq => congrArg (· ++ [msg]) heq) ?_)
  rintro ⟨before, after, hsent, hbefore⟩
  refine ⟨before, after ++ [msg], ?_, hbefore.trans (List.prefix_append _ _)⟩
  rw [hsent, List.append_assoc]
  rfl

/-- The exit message. -/
theorem ClientInv.exit (h : ClientInv n) : ClientInv (n.send exitMsg) := by
  refine h.send exitMsg (.inr ?_)
  rcases h.requests with heq | ⟨before, after, hsent, hbefore⟩
  · exact ⟨n.sent, [], rfl, heq ▸ List.prefix_refl _⟩
  · refine ⟨before, after ++ [exitMsg], ?_, hbefore⟩
    rw [hsent, List.append_assoc]
    rfl

/-- A call of `close` goes on, and the rest of the client may be stopped. -/
theorem ClientInv.closing (h : ClientInv n) {closers : List ClosePc}
    {running socket connected : Bool}
    (hlate : ∀ pc ∈ closers, early pc = false → exitMsg ∈ n.sent)
    (hsocket : socket = false → exitMsg ∈ n.sent)
    (hstopped : running = false → exitMsg ∈ n.sent ∨ closers ≠ []) :
    ClientInv { n with closers, running, socket, connected } :=
  ⟨h.sends, h.requests, hlate, hsocket, hstopped⟩

/-- A call of `close` goes on. Once `m_running` is cleared, the exit message is sent or a call that
sends it is still on its way; the other places touch neither. -/
theorem ClientInv.closeStep (h : ClientInv n) {k : ℕ} (hstep : n.closeStep k = some n') :
    ClientInv n' := by
  -- the calls of `close` that are left, and that there still is one
  have hset : ∀ pc, ∀ q ∈ n.closers.set k pc, q = pc ∨ q ∈ n.closers := fun pc q hq =>
    (List.mem_or_eq_of_mem_set hq).symm
  have hne : ∀ {pc}, n.closers[k]? = some pc → ∀ q, n.closers.set k q ≠ [] := by
    intro pc hk q hnil
    obtain ⟨hlt, -⟩ := List.getElem?_eq_some_iff.mp hk
    have hlength := congrArg List.length hnil
    rw [List.length_set, List.length_nil] at hlength
    omega
  unfold ZClientNode.closeStep at hstep
  split at hstep
  · cases hstep
  -- the socket tells whether another call has closed the client already
  · next hk =>
    rw [Option.some.injEq] at hstep
    subst hstep
    cases hsocket : n.socket with
    | true =>
      refine h.closing ?_ (fun h => by cases h) fun _ => .inr (hne hk _)
      intro q hq hlate
      rcases hset _ q hq with rfl | hq
      · cases hlate
      · exact h.late q hq hlate
    | false =>
      have hexit := h.socket hsocket
      exact h.closing (fun _ _ _ => hexit) (fun _ => hexit) fun _ => .inl hexit
  -- `m_running` is cleared, and this call still has to send the exit message
  · next hk =>
    rw [Option.some.injEq] at hstep
    subst hstep
    refine h.closing ?_ h.socket fun _ => .inr (hne hk _)
    intro q hq hlate
    rcases hset _ q hq with rfl | hq
    · cases hlate
    · exact h.late q hq hlate
  -- the exit message is sent
  · next hk =>
    rw [Option.some.injEq] at hstep
    subst hstep
    have hexit : exitMsg ∈ n.sent ++ [exitMsg] := List.mem_append_right _ List.mem_cons_self
    exact h.exit.closing (fun _ _ _ => hexit) (fun _ => hexit) fun _ => .inl hexit
  -- the last two steps come behind it
  · next hk =>
    rw [Option.some.injEq] at hstep
    subst hstep
    have hexit : exitMsg ∈ n.sent := h.late _ (List.mem_of_getElem? hk) rfl
    exact h.closing (fun _ _ _ => hexit) (fun _ => hexit) fun _ => .inl hexit
  · next hk =>
    rw [Option.some.injEq] at hstep
    subst hstep
    have hexit : exitMsg ∈ n.sent := h.late _ (List.mem_of_getElem? hk) rfl
    exact h.closing (fun _ _ _ => hexit) (fun _ => hexit) fun _ => .inl hexit

/-- All steps of a client. The exit message stays in the queue, and the sender is somewhere in front
of it. -/
theorem ClientInv.step (h : ClientInv n) {serverRunning : Bool} {a : ClientAction}
    (hstep : n.step serverRunning a = some n') : ClientInv n' := by
  cases a with
  | senderCheck => exact h.senderCheck hstep
  | senderGet => exact h.senderGet hstep
  | senderSend ok => exact h.senderSend hstep
  | onError => exact Option.some.inj hstep ▸ h.onError
  | close => exact Option.some.inj hstep ▸ h.close
  | closeStep k => exact h.closeStep hstep

/-- Only `ZServer::send` makes requests, and no step changes the id. So what a client is asked to
send is read off the actions of the run. -/
theorem step_requests {serverRunning : Bool} {a : ClientAction}
    (hstep : n.step serverRunning a = some n') : n'.requests = n.requests ∧ n'.id = n.id := by
  cases a with
  | senderCheck =>
    change n.senderCheck serverRunning = some n' at hstep
    unfold senderCheck at hstep
    split at hstep
    · exact Option.some.inj hstep ▸ ⟨rfl, rfl⟩
    · cases hstep
  | senderGet =>
    change n.senderGet = some n' at hstep
    unfold senderGet at hstep
    split at hstep
    · exact Option.some.inj hstep ▸ ⟨rfl, rfl⟩
    · cases hstep
  | senderSend ok =>
    change n.senderSend ok = some n' at hstep
    unfold senderSend at hstep
    split at hstep
    -- both ways out of `sendPacket` leave the queue of the server alone
    · next msg _ =>
      rw [← Option.some.inj hstep]
      rcases sendPacket_cases (packet msg) ok n with hfailed | ⟨bytes, -, hsucceeded⟩
      · rw [hfailed]
        exact ⟨rfl, rfl⟩
      · rw [hsucceeded]
        exact ⟨rfl, rfl⟩
    · cases hstep
  | onError => exact Option.some.inj hstep ▸ ⟨rfl, rfl⟩
  | close => exact Option.some.inj hstep ▸ ⟨rfl, rfl⟩
  | closeStep k =>
    change n.closeStep k = some n' at hstep
    unfold closeStep at hstep
    split at hstep
    · cases hstep
    all_goals exact Option.some.inj hstep ▸ ⟨rfl, rfl⟩

/-- The sender does not wait while the exit message has been sent. -/
theorem ClientInv.not_waiting (h : ClientInv n) (hget : n.sender = .get)
    (hexit : exitMsg ∈ n.sent) : n.msgMgr ≠ [] := by
  obtain ⟨taken, hsent, hsends⟩ := h.sends
  rw [Sends, hget] at hsends
  rintro hempty
  rw [hsent, hempty, List.append_nil] at hexit
  exact (hsends.1 _ hexit).1 rfl

/-- The sender has sent the first messages of the queue. -/
theorem ClientInv.wire_sent (h : ClientInv n) :
    ∃ before, before <+: n.sent ∧ n.wire = threadSend before := by
  obtain ⟨taken, hsent, hsends⟩ := h.sends
  have htaken : taken <+: n.sent := hsent ▸ List.prefix_append _ _
  unfold Sends at hsends
  split at hsends
  · exact ⟨taken, htaken, hsends.2⟩
  · exact ⟨taken, htaken, hsends.2⟩
  · obtain ⟨before, rfl, -, -, -, hwire⟩ := hsends
    exact ⟨before, (List.prefix_append _ _).trans htaken, hwire⟩
  · obtain ⟨before, hbefore, hwire⟩ := hsends
    exact ⟨before, hbefore.trans htaken, hwire⟩

/-- These are the first messages of the server. -/
theorem ClientInv.wire_requests (h : ClientInv n) :
    ∃ k, n.wire = threadSend (n.requests.take k) := by
  suffices hprefix : ∃ t, t <+: n.requests ∧ n.wire = threadSend t by
    obtain ⟨t, ht, hwire⟩ := hprefix
    exact ⟨t.length, hwire.trans (congrArg _ (List.prefix_iff_eq_take.mp ht))⟩
  obtain ⟨taken, htaken, hwire⟩ := h.wire_sent
  rcases h.requests with heq | ⟨before, after, hsent, hbefore⟩
  · exact ⟨taken, heq ▸ htaken, hwire⟩
  rw [hsent] at htaken
  rcases List.prefix_or_prefix_of_prefix htaken (List.prefix_append before _) with hle | ⟨u, rfl⟩
  · exact ⟨taken, hle.trans hbefore, hwire⟩
  refine ⟨before, hbefore, hwire.trans ?_⟩
  -- what the sender took behind `before` begins with the exit message
  cases u with
  | nil => rw [List.append_nil]
  | cons m u =>
    have hm : m = exitMsg :=
      (List.cons_prefix_cons.mp ((List.prefix_append_right_inj before).mp htaken)).1
    rw [hm, threadSend_append_exit]

/-- A sender that waits has sent all messages of the server. -/
theorem ClientInv.waiting (h : ClientInv n) (hget : n.sender = .get) (hempty : n.msgMgr = []) :
    n.wire = threadSend n.requests := by
  rcases h.requests with heq | ⟨before, after, hsent, -⟩
  · obtain ⟨taken, htaken, hsends⟩ := h.sends
    rw [Sends, hget] at hsends
    rw [hempty, List.append_nil, heq] at htaken
    rw [htaken]
    exact hsends.2
  · refine absurd hempty (h.not_waiting hget ?_)
    rw [hsent]
    exact List.mem_append_right _ List.mem_cons_self

/-! ### A client that is stopped -/

/-- Since the bytes were `wire`, at most one more message has gone out. -/
structure Quiet (wire : Text) (n : ZClientNode) : Prop where
  running : n.running = false
  wire : n.wire = wire ∨ ∃ msg bytes, packet msg = some bytes ∧ n.wire = wire ++ bytes ∧
    (n.sender = .check ∨ n.sender = .ended)

/-- A client that is stopped has at most the message left to send that it has taken already. So its
stream can grow once more, and never again. -/
theorem Quiet.step {wire : Text} (h : Quiet wire n) {serverRunning : Bool} {a : ClientAction}
    (hstep : n.step serverRunning a = some n') : Quiet wire n' := by
  cases a with
  | senderCheck =>
    change n.senderCheck serverRunning = some n' at hstep
    unfold senderCheck at hstep
    split at hstep
    · rw [Option.some.injEq] at hstep
      subst hstep
      -- the sender finds the flag cleared and ends
      refine ⟨h.running, h.wire.imp_right ?_⟩
      rintro ⟨msg, bytes, hbytes, hwire, -⟩
      refine ⟨msg, bytes, hbytes, hwire, .inr (if_neg ?_)⟩
      rw [h.running]
      exact Bool.false_ne_true
    · cases hstep
  | senderGet =>
    change n.senderGet = some n' at hstep
    unfold senderGet at hstep
    split at hstep
    · next msg msgMgr hget _ =>
      rw [Option.some.injEq] at hstep
      subst hstep
      -- the sender cannot be in front of `get` behind the one message
      refine ⟨h.running, .inl (h.wire.resolve_right ?_)⟩
      rintro ⟨-, -, -, -, hsender⟩
      rw [hget] at hsender
      rcases hsender with hsender | hsender <;> cases hsender
    · cases hstep
  | senderSend ok =>
    change n.senderSend ok = some n' at hstep
    unfold senderSend at hstep
    split at hstep
    · next msg hsend =>
      -- so this message is the first since
      have hwire : n.wire = wire := by
        refine h.wire.resolve_right ?_
        rintro ⟨-, -, -, -, hsender⟩
        rw [hsend] at hsender
        rcases hsender with hsender | hsender <;> cases hsender
      rw [← Option.some.inj hstep]
      rcases sendPacket_cases (packet msg) ok n with hfailed | ⟨bytes, hbytes, hsucceeded⟩
      · rw [hfailed]
        exact ⟨rfl, .inl hwire⟩
      · rw [hsucceeded, hwire]
        exact ⟨h.running, .inr ⟨msg, bytes, hbytes, rfl, .inl rfl⟩⟩
    · cases hstep
  | onError => exact Option.some.inj hstep ▸ ⟨rfl, h.wire⟩
  | close => exact Option.some.inj hstep ▸ ⟨h.running, h.wire⟩
  | closeStep k =>
    change n.closeStep k = some n' at hstep
    unfold closeStep at hstep
    split at hstep
    · cases hstep
    · exact Option.some.inj hstep ▸ ⟨h.running, h.wire⟩
    · exact Option.some.inj hstep ▸ ⟨rfl, h.wire⟩
    all_goals exact Option.some.inj hstep ▸ ⟨h.running, h.wire⟩

/-- A call of `close` can go on. -/
theorem closeStep_isSome {k : ℕ} (hk : k < n.closers.length) : (n.closeStep k).isSome = true := by
  unfold closeStep
  rw [List.getElem?_eq_getElem hk]
  cases n.closers[k] <;> rfl

/-- A stopped client whose threads cannot move has an ended sender. Every call of `close` has
returned, so the exit message was sent; a sender that waits has not taken it, so it is still in the
queue. -/
theorem ClientInv.ended_of_stuck (h : ClientInv n) (hrunning : n.running = false)
    {serverRunning : Bool} (hstuck : ∀ a, a ≠ .close → a ≠ .onError →
      n.step serverRunning a = none) : n.sender = .ended := by
  -- a call of `close` could go on
  have hclosers : n.closers = [] := by
    by_contra hne
    have hnone : n.closeStep 0 = none := hstuck (.closeStep 0) (by simp) (by simp)
    have hsome := n.closeStep_isSome (List.length_pos_iff.mpr hne)
    rw [hnone] at hsome
    cases hsome
  -- so all of them have returned, and one has sent the exit message
  have hexit : exitMsg ∈ n.sent := (h.stopped hrunning).resolve_right (not_not_intro hclosers)
  cases hsender : n.sender with
  -- in front of `isRunning` the sender can move
  | check =>
    have hnone : n.senderCheck serverRunning = none := hstuck .senderCheck (by simp) (by simp)
    unfold ZClientNode.senderCheck at hnone
    rw [hsender] at hnone
    cases hnone
  | get =>
    have hnone : n.senderGet = none := hstuck .senderGet (by simp) (by simp)
    -- in front of `get` it does not wait, since the exit message is still in the queue
    obtain ⟨msg, msgMgr, hqueue⟩ := List.exists_cons_of_ne_nil (h.not_waiting hsender hexit)
    unfold ZClientNode.senderGet at hnone
    rw [hsender, hqueue] at hnone
    cases hnone
  -- and in front of `send` it can move, too
  | send msg =>
    have hnone : n.senderSend true = none := hstuck (.senderSend true) (by simp) (by simp)
    unfold ZClientNode.senderSend at hnone
    rw [hsender] at hnone
    cases hnone
  | ended => rfl

end ZClientNode

/-! ### The server -/

namespace ZServer

open ZClientNode (ClientInv Quiet)

/-- The id of a client: the number that `s_idAllocator` has then. -/
def clientId (i : ℕ) : Int32 := Int32.ofNat (101 + i)

/-- The clients whose ids do not wrap. -/
def idLimit : ℕ := 2 ^ 31 - 101

/-- An id below the limit is the number itself. -/
theorem clientId_toInt {i : ℕ} (h : i < idLimit) : (clientId i).toInt = 101 + i := by
  have hlt : 101 + i < 2 ^ 31 := Nat.add_lt_of_lt_sub' h
  rw [clientId, Int32.toInt_ofNat_of_lt hlt]
  omega

/-- These ids are different. -/
theorem clientId_injective {i j : ℕ} (hi : i < idLimit) (hj : j < idLimit)
    (h : clientId i = clientId j) : i = j := by
  have heq := congrArg Int32.toInt h
  rw [clientId_toInt hi, clientId_toInt hj] at heq
  omega

/-- A server between two steps. -/
structure ServerInv (s : ZServer) : Prop where
  allocated : s.idAllocator = Int32.ofNat (100 + s.nodes.length)
  nodes : ∀ {i n}, s.nodes[i]? = some n → n.id = clientId i ∧ ClientInv n
  nodup : s.pool.Nodup
  pool : ∀ i ∈ s.pool, i < s.nodes.length
  adding : ∀ {i}, s.accepting = .add i → i < s.nodes.length ∧ i ∉ s.pool
  sends : ∀ p ∈ s.sends, p.node < s.nodes.length ∧ p.id = clientId p.node

/-- The message that comes into the queue of the client with the id of the client `i`. -/
def requestsIn (i : ℕ) (s : ZServer) : ServerAction → List Text
  | .sendStep k =>
    match s.sends[k]? with
    | some p => if p.id = clientId i then [p.msg] else []
    | none => []
  | _ => []

/-- The messages for the client `i` along a run. -/
def requestsOf (i : ℕ) : ZServer → List ServerAction → List Text
  | _, [] => []
  | s, a :: as => s.requestsIn i a ++
    match s.step a with
    | none => []
    | some s' => requestsOf i s' as

variable {s s' : ZServer} {i : ℕ} {n : ZClientNode}

/-- What a step can do: clients leave the pool, a client is accepted or comes into the pool, `send`
is called or goes on, or a client moves. -/
theorem step_cases {a : ServerAction} (hstep : s.step a = some s') :
    (∃ running pool accepting, s' = { s with running, pool, accepting } ∧ pool.Sublist s.pool ∧
      (∀ i, accepting = .add i → s.accepting = .add i) ∧ ∀ i, s.requestsIn i a = []) ∨
    (a = .accept true ∧ s' = { s with
      idAllocator := s.idAllocator + 1
      nodes := s.nodes ++ [{ id := s.idAllocator + 1 }]
      accepting := .add s.nodes.length }) ∨
    (∃ i, a = .addClient ∧ s.accepting = .add i ∧
      s' = { s with pool := s.pool ++ [i], accepting := .dead }) ∨
    (∃ id msg, a = .send id msg ∧ s' = s.send id msg) ∨
    (∃ k p, a = .sendStep k ∧ s.sends[k]? = some p ∧ s' = { s with
      nodes := s.nodes.modify p.node fun n =>
        { n.send p.msg with requests := n.requests ++ [p.msg] }
      sends := s.sends.eraseIdx k }) ∨
    ∃ i b n n', a = .client i b ∧ s.nodes[i]? = some n ∧ n.step s.running b = some n' ∧
      s' = { s with nodes := s.nodes.set i n' } := by
  -- one case for each action, and the alternatives of the statement from the left
  cases a with
  | acceptCheck =>
    rw [ZServer.step] at hstep
    split_ifs at hstep
    · exact .inl ⟨_, _, _, (Option.some.inj hstep).symm, .refl _, nofun, fun _ => rfl⟩
    · exact .inl ⟨_, _, _, (Option.some.inj hstep).symm, .refl _, nofun, fun _ => rfl⟩
  | accept ok =>
    rw [ZServer.step] at hstep
    split_ifs at hstep with _ hok
    · exact .inr (.inl ⟨congrArg _ hok, (Option.some.inj hstep).symm⟩)
    · exact .inl ⟨_, _, _, (Option.some.inj hstep).symm, .refl _, nofun, fun _ => rfl⟩
  | addClient =>
    rw [ZServer.step] at hstep
    split at hstep
    · next i hi => exact .inr (.inr (.inl ⟨i, rfl, hi, (Option.some.inj hstep).symm⟩))
    · cases hstep
  | checkDead =>
    rw [ZServer.step] at hstep
    split_ifs at hstep
    exact .inl ⟨_, _, _, (Option.some.inj hstep).symm, .refl _, nofun, fun _ => rfl⟩
  | removeDead =>
    rw [ZServer.step] at hstep
    split at hstep
    · refine .inl ⟨_, _, _, (Option.some.inj hstep).symm, ?_, nofun, fun _ => rfl⟩
      split_ifs
      · exact .refl _
      · exact List.filter_sublist
    · exact .inl ⟨_, _, _, (Option.some.inj hstep).symm, .refl _, nofun, fun _ => rfl⟩
    · cases hstep
  | removeClient i =>
    rw [ZServer.step] at hstep
    split_ifs at hstep
    exact .inl ⟨_, _, _, (Option.some.inj hstep).symm, List.filter_sublist, fun _ => id,
      fun _ => rfl⟩
  | send id msg =>
    rw [ZServer.step] at hstep
    split_ifs at hstep
    exact .inr (.inr (.inr (.inl ⟨id, msg, rfl, (Option.some.inj hstep).symm⟩)))
  | sendStep k =>
    rw [ZServer.step, sendStep] at hstep
    split at hstep
    · cases hstep
    · next p hp =>
      exact .inr (.inr (.inr (.inr (.inl ⟨k, p, rfl, hp, (Option.some.inj hstep).symm⟩))))
  | close => exact .inl ⟨_, _, _, (Option.some.inj hstep).symm, .refl _, fun _ => id, fun _ => rfl⟩
  | client i b =>
    rw [ZServer.step] at hstep
    split at hstep
    · cases hstep
    · next n hi =>
      obtain ⟨n', hn', hs'⟩ := Option.map_eq_some_iff.mp hstep
      exact .inr (.inr (.inr (.inr (.inr ⟨i, b, n, n', rfl, hi, hn', hs'.symm⟩))))

/-- A new server has no clients. -/
theorem serverInv_new : ServerInv {} where
  allocated := rfl
  nodes h := by cases h
  nodup := List.nodup_nil
  pool _ h := by cases h
  adding h := by cases h
  sends _ h := by cases h

/-- Clients leave the pool. -/
theorem ServerInv.shrink (h : ServerInv s) {running : Bool} {pool : List ℕ} {accepting : AcceptPc}
    (hpool : pool.Sublist s.pool)
    (hadding : ∀ i, accepting = .add i → s.accepting = .add i) :
    ServerInv { s with running, pool, accepting } where
  allocated := h.allocated
  nodes := h.nodes
  nodup := h.nodup.sublist hpool
  pool i hi := h.pool i (hpool.subset hi)
  adding hi := (h.adding (hadding _ hi)).imp_right (mt (fun hmem => hpool.subset hmem))
  sends := h.sends

/-- Clients change, and calls of `send` return. -/
theorem ServerInv.change (h : ServerInv s) {nodes : List ZClientNode} {sends : List PendingSend}
    (hlength : nodes.length = s.nodes.length)
    (hnodes : ∀ {i n}, nodes[i]? = some n → n.id = clientId i ∧ ClientInv n)
    (hsends : sends.Sublist s.sends) : ServerInv { s with nodes, sends } where
  allocated := hlength ▸ h.allocated
  nodes := hnodes
  nodup := h.nodup
  pool i hi := hlength ▸ h.pool i hi
  adding hi := hlength ▸ h.adding hi
  sends p hp := hlength ▸ h.sends p (hsends.subset hp)

/-- A new client gets the next id. The id is the number of the client as an `int` holds it, for the
old clients and for the new one. -/
theorem ServerInv.accept (h : ServerInv s) :
    ServerInv { s with
      idAllocator := s.idAllocator + 1
      nodes := s.nodes ++ [{ id := s.idAllocator + 1 }]
      accepting := .add s.nodes.length } where
  allocated := by
    -- the id is the number of the client, as `++` wraps like `Int32.ofNat`
    show s.idAllocator + 1 = Int32.ofNat (100 + (s.nodes ++ [_]).length)
    rw [List.length_append, List.length_singleton, h.allocated, ← Nat.add_assoc,
      Int32.ofNat_add _ 1]
    rfl
  nodes := by
    intro i n hi
    obtain ⟨hlt, -⟩ := List.getElem?_eq_some_iff.mp hi
    rw [List.length_append, List.length_singleton] at hlt
    -- the old clients keep their ids
    rcases Nat.lt_succ_iff_lt_or_eq.mp hlt with hlt | rfl
    · rw [List.getElem?_append_left hlt] at hi
      exact h.nodes hi
    -- the new one has the next
    · rw [List.getElem?_concat_length, Option.some.injEq] at hi
      subst hi
      refine ⟨?_, ZClientNode.clientInv_new _⟩
      show s.idAllocator + 1 = clientId s.nodes.length
      rw [h.allocated, clientId, Nat.add_right_comm 100 1, Int32.ofNat_add _ 1]
      rfl
  nodup := h.nodup
  pool i hi := by
    rw [List.length_append]
    exact Nat.lt_add_right _ (h.pool i hi)
  adding hi := by
    -- the new client is not in the pool yet
    rw [AcceptPc.add.injEq] at hi
    subst hi
    rw [List.length_append]
    exact ⟨Nat.lt_add_of_pos_right (Nat.succ_pos _), fun hmem => Nat.lt_irrefl _ (h.pool _ hmem)⟩
  sends p hp := by
    rw [List.length_append]
    exact (h.sends p hp).imp_left (Nat.lt_add_right _)

/-- The accepted client comes into the pool. Nobody else can have put it there. -/
theorem ServerInv.addClient (h : ServerInv s) (hi : s.accepting = .add i) :
    ServerInv { s with pool := s.pool ++ [i], accepting := .dead } where
  allocated := h.allocated
  nodes := h.nodes
  nodup := by
    rw [← List.concat_eq_append]
    exact (List.nodup_concat _ _).mpr ⟨(h.adding hi).2, h.nodup⟩
  pool j hj := by
    rcases List.mem_append.mp hj with hj | hj
    · exact h.pool j hj
    · exact List.mem_singleton.mp hj ▸ (h.adding hi).1
  adding h := by cases h
  sends := h.sends

/-- `getClient` finds a client by its id. -/
theorem ServerInv.of_getClient (h : ServerInv s) {id : Int32} (hfind : s.getClient id = some i) :
    i ∈ s.pool ∧ id = clientId i := by
  rw [getClient] at hfind
  have hi := List.mem_of_find?_eq_some hfind
  have hid := List.find?_some hfind
  have hlookup := List.getElem?_eq_getElem (h.pool i hi)
  rw [hlookup, Option.any_some, beq_iff_eq, (h.nodes hlookup).1] at hid
  exact ⟨hi, hid.symm⟩

/-- A call of `send` begins. It has found the client, or it has not. -/
theorem ServerInv.send (h : ServerInv s) (id : Int32) (msg : Text) :
    ServerInv (s.send id msg) := by
  unfold ZServer.send
  split
  · exact h
  · next node hnode =>
    obtain ⟨hpool, hid⟩ := h.of_getClient hnode
    refine ⟨h.allocated, h.nodes, h.nodup, h.pool, h.adding, fun p hp => ?_⟩
    rcases List.mem_append.mp hp with hp | hp
    · exact h.sends p hp
    · rw [List.mem_singleton.mp hp]
      exact ⟨h.pool node hpool, hid⟩

/-- A call of `send` puts its message into the queue. -/
theorem ServerInv.sendStep (h : ServerInv s) (p : PendingSend) (k : ℕ) :
    ServerInv { s with
      nodes := s.nodes.modify p.node fun n =>
        { n.send p.msg with requests := n.requests ++ [p.msg] }
      sends := s.sends.eraseIdx k } := by
  refine h.change (List.length_modify _ _ _) (fun {j m} hj => ?_) (List.eraseIdx_sublist _ _)
  rw [List.getElem?_modify] at hj
  obtain ⟨n, hn, rfl⟩ := Option.map_eq_some_iff.mp hj
  by_cases heq : p.node = j
  · rw [if_pos heq]
    exact ⟨(h.nodes hn).1, (h.nodes hn).2.request p.msg⟩
  · rw [if_neg heq]
    exact h.nodes hn

/-- A client moves. -/
theorem ServerInv.client (h : ServerInv s) {n' : ZClientNode} {a : ClientAction}
    (hi : s.nodes[i]? = some n) (hstep : n.step s.running a = some n') :
    ServerInv { s with nodes := s.nodes.set i n' } := by
  refine h.change List.length_set (fun {j m} hj => ?_) (List.Sublist.refl _)
  rw [List.getElem?_set] at hj
  split_ifs at hj with heq
  · rw [Option.some.injEq] at hj
    subst heq hj
    obtain ⟨hid, hinv⟩ := h.nodes hi
    exact ⟨(ZClientNode.step_requests hstep).2.trans hid, hinv.step hstep⟩
  · exact h.nodes hj

/-- All steps of the server, by the cases of `step_cases`. -/
theorem ServerInv.step (h : ServerInv s) {a : ServerAction} (hstep : s.step a = some s') :
    ServerInv s' := by
  rcases step_cases hstep with ⟨running, pool, accepting, rfl, hpool, hadding, -⟩ | ⟨-, rfl⟩ |
    ⟨i, -, hi, rfl⟩ | ⟨id, msg, -, rfl⟩ | ⟨k, p, -, -, rfl⟩ | ⟨i, b, n, n', -, hi, hn', rfl⟩
  · exact h.shrink hpool hadding
  · exact h.accept
  · exact h.addClient hi
  · exact h.send id msg
  · exact h.sendStep p k
  · exact h.client hi hn'

/-- The messages that a client has got from the server. -/
def requests (s : ZServer) (i : ℕ) : List Text := ((s.nodes[i]?).map (·.requests)).getD []

/-- A step of a client brings no message of the server. -/
theorem requests_client {n' : ZClientNode} {a : ClientAction} {j : ℕ} (hj : s.nodes[j]? = some n)
    (hstep : n.step s.running a = some n') (i : ℕ) :
    requests { s with nodes := s.nodes.set j n' } i = s.requests i := by
  rw [requests, requests, List.getElem?_set]
  split_ifs with hij hlt
  · rw [← hij, hj, Option.map_some, Option.map_some, (ZClientNode.step_requests hstep).1]
  · rw [← hij, List.getElem?_eq_none (Nat.le_of_not_lt hlt)]
  · rfl

/-- Nor does the beginning of a call of `send`. -/
theorem requests_send (id : Int32) (msg : Text) (i : ℕ) :
    (s.send id msg).requests i = s.requests i := by
  unfold ZServer.send
  split <;> rfl

/-- The message comes to the client whose id it was sent to, because no other client has that id. -/
theorem requests_sendStep (h : ServerInv s) (hlimit : s.nodes.length ≤ idLimit) {k : ℕ}
    {p : PendingSend} (hp : s.sends[k]? = some p) (hi : i < idLimit) :
    requests { s with
      nodes := s.nodes.modify p.node fun n =>
        { n.send p.msg with requests := n.requests ++ [p.msg] }
      sends := s.sends.eraseIdx k } i = s.requests i ++ s.requestsIn i (.sendStep k) := by
  obtain ⟨hnode, hid⟩ := h.sends p (List.mem_of_getElem? hp)
  rw [requests, requests, requestsIn, hp, List.getElem?_modify]
  show _ = _ ++ if p.id = clientId i then [p.msg] else []
  by_cases heq : p.node = i
  · subst heq
    rw [if_pos hid, List.getElem?_eq_getElem hnode]
    simp
  · have hne : p.id ≠ clientId i := fun hsame =>
      heq (clientId_injective (Nat.lt_of_lt_of_le hnode hlimit) hi (hid.symm.trans hsame))
    rw [if_neg hne, List.append_nil]
    simp [heq]

/-- A new client has no messages. -/
theorem requests_accept (i : ℕ) (id : Int32) :
    requests { s with nodes := s.nodes ++ [{ id }] } i = s.requests i := by
  rw [requests, requests, List.getElem?_append]
  split_ifs with hlt
  · rfl
  · rw [List.getElem?_eq_none (Nat.le_of_not_lt hlt)]
    cases i - s.nodes.length with
    | zero => rfl
    | succ k => rfl

/-- A step brings a client the messages that are counted for it. -/
theorem requests_step (h : ServerInv s) (hlimit : s.nodes.length ≤ idLimit) {a : ServerAction}
    (hstep : s.step a = some s') (hi : i < idLimit) :
    s'.requests i = s.requests i ++ s.requestsIn i a := by
  rcases step_cases hstep with ⟨running, pool, accepting, rfl, -, -, hnone⟩ | ⟨rfl, rfl⟩ |
    ⟨j, rfl, -, rfl⟩ | ⟨id, msg, rfl, rfl⟩ | ⟨k, p, rfl, hp, rfl⟩ | ⟨j, b, n, n', rfl, hj, hn', rfl⟩
  · rw [hnone, List.append_nil]
    rfl
  · exact (requests_accept i _).trans (List.append_nil _).symm
  · exact (List.append_nil _).symm
  · exact (requests_send id msg i).trans (List.append_nil _).symm
  · exact requests_sendStep h hlimit hp hi
  · exact (requests_client hj hn' i).trans (List.append_nil _).symm

/-- The invariant along every run. -/
theorem ServerInv.run {actions : List ServerAction} (h : ServerInv s)
    (hrun : Lib.run ZServer.step s actions = some s') : ServerInv s' :=
  run_invariant (fun _ _ _ _ h hstep => ServerInv.step h hstep) (fun _ _ => trivial) h hrun

/-- No client is forgotten. -/
theorem length_le_of_step {a : ServerAction} (hstep : s.step a = some s') :
    s.nodes.length ≤ s'.nodes.length := by
  rcases step_cases hstep with ⟨running, pool, accepting, rfl, -⟩ | ⟨-, rfl⟩ | ⟨j, -, -, rfl⟩ |
    ⟨id, msg, -, rfl⟩ | ⟨k, p, -, -, rfl⟩ | ⟨j, b, m, m', -, hj, hm', rfl⟩
  · exact Nat.le_refl _
  · rw [List.length_append]
    exact Nat.le_add_right _ _
  · exact Nat.le_refl _
  · unfold ZServer.send
    split <;> exact Nat.le_refl _
  · exact Nat.le_of_eq (List.length_modify ..).symm
  · exact Nat.le_of_eq List.length_set.symm

/-- No client is forgotten along a run. -/
theorem length_le_of_run {actions : List ServerAction}
    (hrun : Lib.run ZServer.step s actions = some s') : s.nodes.length ≤ s'.nodes.length := by
  have hstep : ∀ m a m', True → s.nodes.length ≤ m.nodes.length → ZServer.step m a = some m' →
      s.nodes.length ≤ m'.nodes.length :=
    fun _ _ _ _ hle hstep => Nat.le_trans hle (length_le_of_step hstep)
  have hinv := run_invariant hstep (fun _ _ => trivial) (Nat.le_refl _) hrun
  exact hinv

/-- The messages of a client after a run. By induction on the run, with `requests_step`. -/
theorem requests_run {actions : List ServerAction} (h : ServerInv s)
    (hrun : Lib.run ZServer.step s actions = some s') (hlimit : s'.nodes.length ≤ idLimit)
    (hi : i < idLimit) : s'.requests i = s.requests i ++ requestsOf i s actions := by
  induction actions generalizing s with
  | nil =>
    rw [run_nil, Option.some.injEq] at hrun
    subst hrun
    exact (List.append_nil _).symm
  | cons a actions ih =>
    have hlength := Nat.le_trans (length_le_of_run hrun) hlimit
    obtain ⟨m, hm, hrun⟩ := run_cons_eq_some.mp hrun
    rw [ih (h.step hm) hrun, requests_step h hlength hm hi, requestsOf, hm, List.append_assoc]

/-- Two clients are accepted, and each call of `send` finds its own. -/
def twoClients : List ServerAction :=
  [.acceptCheck, .accept true, .addClient, .checkDead, .removeDead, .removeDead, .acceptCheck,
    .accept true, .addClient, .send 102 ['o', 'k'], .send 101 ['n', 'o'], .client 1 .senderCheck,
    .sendStep 1, .sendStep 0, .client 1 .senderGet]

/-- The client has left the pool for good, or `remove_if` has still to look at it. -/
structure Gone (i : ℕ) (s : ZServer) : Prop where
  accepted : i < s.nodes.length
  pool : i ∈ s.pool → ∃ rest, s.accepting = .walk rest ∧ i ∈ rest
  adding : s.accepting ≠ .add i

/-- The client `i` is stopped, and since its bytes were `wire` it has sent one message at most. -/
def Stopped (i : ℕ) (wire : Text) (s : ZServer) : Prop :=
  ∃ n, s.nodes[i]? = some n ∧ Quiet wire n

/-- A client that is stopped stays so: only a step of the client itself changes it, and none sets
its `m_running` again. -/
theorem Stopped.step {wire : Text} (h : Stopped i wire s) {a : ServerAction}
    (hstep : s.step a = some s') : Stopped i wire s' := by
  obtain ⟨n, hn, hquiet⟩ := h
  -- only a step of the client itself changes it, and then `Quiet.step` says how
  rcases step_cases hstep with ⟨running, pool, accepting, rfl, -⟩ | ⟨-, rfl⟩ | ⟨j, -, -, rfl⟩ |
    ⟨id, msg, -, rfl⟩ | ⟨k, p, -, -, rfl⟩ | ⟨j, b, m, m', -, hj, hm', rfl⟩
  · exact ⟨n, hn, hquiet⟩
  · exact ⟨n, (List.getElem?_append_left (List.getElem?_eq_some_iff.mp hn).1).trans hn, hquiet⟩
  · exact ⟨n, hn, hquiet⟩
  · unfold ZServer.send
    split
    · exact ⟨n, hn, hquiet⟩
    · exact ⟨n, hn, hquiet⟩
  -- a message comes into its queue, which has nothing to do with the sender
  · rw [Stopped, List.getElem?_modify, hn]
    by_cases hi : p.node = i
    · exact ⟨_, congrArg some (if_pos hi), hquiet.running, hquiet.wire⟩
    · exact ⟨n, congrArg some (if_neg hi), hquiet⟩
  · rw [Stopped, List.getElem?_set]
    by_cases hij : j = i
    · subst hij
      rw [hn, Option.some.injEq] at hj
      subst hj
      rw [if_pos rfl, if_pos (List.getElem?_eq_some_iff.mp hn).1]
      exact ⟨m', rfl, hquiet.step hm'⟩
    · rw [if_neg hij]
      exact ⟨n, hn, hquiet⟩

/-- `remove_if` comes to the client, or has returned. It takes a client that is not running out of
the list, whatever the others are. -/
theorem Gone.removeDead {wire : Text} (hstopped : Stopped i wire s) (h : Gone i s)
    (hstep : s.step .removeDead = some s') : Gone i s' := by
  obtain ⟨n, hn, hquiet⟩ := hstopped
  rw [ZServer.step] at hstep
  split at hstep
  · next j rest hwalk =>
    rw [Option.some.injEq] at hstep
    subst hstep
    refine ⟨h.accepted, fun hi => ⟨rest, rfl, ?_⟩, fun hi => by cases hi⟩
    have hpool : i ∈ s.pool := by
      split_ifs at hi
      · exact hi
      · exact (List.mem_filter.mp hi).1
    obtain ⟨left, hleft, hmem⟩ := h.pool hpool
    rw [hwalk, AcceptPc.walk.injEq] at hleft
    subst hleft
    rcases List.mem_cons.mp hmem with rfl | hmem
    · -- it is at the client, which is removed
      have hdead : s.nodeRunning i = false := by
        rw [nodeRunning, hn, Option.any_some, hquiet.running, Bool.false_and]
      rw [hdead, if_neg Bool.false_ne_true] at hi
      exact absurd rfl (of_decide_eq_true (List.mem_filter.mp hi).2)
    · exact hmem
  · next hwalk =>
    rw [Option.some.injEq] at hstep
    subst hstep
    refine ⟨h.accepted, fun hi => ?_, fun hi => by cases hi⟩
    obtain ⟨left, hleft, hmem⟩ := h.pool hi
    rw [hwalk, AcceptPc.walk.injEq] at hleft
    subst hleft
    cases hmem
  · cases hstep

/-- Only `remove_if` itself goes on with the pool. -/
theorem accepting_of_walk {rest : List ℕ} (hwalk : s.accepting = .walk rest) {a : ServerAction}
    (hne : a ≠ .removeDead) (hstep : s.step a = some s') : s'.accepting = .walk rest := by
  -- the walk keeps all actions on the pool from being enabled
  cases a with
  | removeDead => exact absurd rfl hne
  | close => exact Option.some.inj hstep ▸ hwalk
  | sendStep k =>
    rw [ZServer.step, ZServer.sendStep] at hstep
    split at hstep
    · cases hstep
    · exact Option.some.inj hstep ▸ hwalk
  | client j b =>
    rw [ZServer.step] at hstep
    split at hstep
    · cases hstep
    · obtain ⟨n', -, hs'⟩ := Option.map_eq_some_iff.mp hstep
      exact hs' ▸ hwalk
  | _ => simp [ZServer.step, walking, hwalk] at hstep

/-- A client that has left the pool does not come back: only a client that is being accepted comes
in. -/
theorem Gone.step {wire : Text} (hstopped : Stopped i wire s) (h : Gone i s) {a : ServerAction}
    (hstep : s.step a = some s') : Gone i s' := by
  by_cases hdead : a = .removeDead
  · exact Gone.removeDead hstopped h (hdead ▸ hstep)
  -- what the walk has still to look at stays there
  have hpool : i ∈ s.pool → ∃ rest, s'.accepting = .walk rest ∧ i ∈ rest := by
    intro hi
    obtain ⟨rest, hwalk, hmem⟩ := h.pool hi
    exact ⟨rest, accepting_of_walk hwalk hdead hstep, hmem⟩
  rcases step_cases hstep with ⟨running, pool, accepting, rfl, hsub, hadding, -⟩ | ⟨-, rfl⟩ |
    ⟨j, -, hj, rfl⟩ | ⟨id, msg, -, rfl⟩ | ⟨k, p, -, -, rfl⟩ | ⟨j, b, n, n', -, hj, hn', rfl⟩
  -- clients leave the pool
  · exact ⟨h.accepted, fun hi => hpool (hsub.subset hi), fun hi => h.adding (hadding i hi)⟩
  -- a client is accepted, with a number of its own
  · refine ⟨?_, hpool, fun hi => ?_⟩
    · rw [List.length_append]
      exact Nat.lt_add_right _ h.accepted
    · rw [AcceptPc.add.injEq] at hi
      exact Nat.ne_of_lt h.accepted hi.symm
  -- a client comes into the pool, and it is not this one
  · refine ⟨h.accepted, fun hi => ?_, fun hi => by cases hi⟩
    rcases List.mem_append.mp hi with hi | hi
    · exact hpool hi
    · exact absurd (List.mem_singleton.mp hi ▸ hj) h.adding
  · unfold ZServer.send at hpool ⊢
    split at hpool <;> exact ⟨h.accepted, hpool, h.adding⟩
  · exact ⟨(List.length_modify ..).symm ▸ h.accepted, hpool, h.adding⟩
  · exact ⟨List.length_set.symm ▸ h.accepted, hpool, h.adding⟩

/-- `checkDead` begins, and it has still to look at all clients. -/
theorem Stopped.gone_of_checkDead {wire : Text} (h : Stopped i wire s)
    (hstep : s.step .checkDead = some s') : Gone i s' := by
  obtain ⟨n, hn, -⟩ := h
  rw [ZServer.step] at hstep
  split_ifs at hstep
  rw [Option.some.injEq] at hstep
  subst hstep
  exact ⟨(List.getElem?_eq_some_iff.mp hn).1, fun hi => ⟨_, rfl, hi⟩, fun hi => by cases hi⟩

/-- Both along a run, from the step at which `checkDead` begins. By induction on the actions behind
it. -/
theorem Stopped.run {wire : Text} {actions : List ServerAction} (h : Stopped i wire s)
    (hrun : Lib.run ZServer.step s actions = some s') :
    Stopped i wire s' ∧ (ServerAction.checkDead ∈ actions → Gone i s') := by
  induction actions generalizing s with
  | nil =>
    rw [run_nil, Option.some.injEq] at hrun
    exact hrun ▸ ⟨h, fun hmem => by cases hmem⟩
  | cons a actions ih =>
    -- the step, and then the rest of the run
    obtain ⟨m, hm, hrest⟩ := run_cons_eq_some.mp hrun
    obtain ⟨hstopped, hgone⟩ := ih (h.step hm) hrest
    refine ⟨hstopped, fun hmem => ?_⟩
    rcases List.mem_cons.mp hmem with rfl | hmem
    -- `checkDead` begins here, and from here on the client is gone
    · have hstep : ∀ m a m', True → (Stopped i wire m ∧ Gone i m) →
          ZServer.step m a = some m' → Stopped i wire m' ∧ Gone i m' :=
        fun _ _ _ _ h hstep => ⟨h.1.step hstep, Gone.step h.1 h.2 hstep⟩
      have hinv := run_invariant hstep (fun _ _ => trivial)
        ⟨h.step hm, h.gone_of_checkDead hm⟩ hrest
      exact hinv.2
    · exact hgone hmem

end ZServer

end OnlineJudger
