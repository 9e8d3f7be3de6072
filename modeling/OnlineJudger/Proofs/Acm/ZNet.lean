import OnlineJudger.Acm.ZNet
import OnlineJudger.Lib.Run

/-!
# `OnlineJudger.Proofs.Acm.ZNet`: what arrives of the messages

The head has four digits, and `packet_eq` says what the sender does with a length of five. The
receiver reads its length from the four digits and the byte behind them (`atoi_digits`).
`framed_iff` puts both together.

* `messages_arrive_iff`: if every `recv` returns what it is asked for, exactly the messages that
  are `Framed` arrive.
* `delivered_prefix_of_whole`: with any `recv`, the messages that are delivered are the first ones
  as long as heads and messages are received as a whole (`Whole`). The end of the stream does not
  fit in, because the receiver takes the old head in its buffer for a new one.
-/

set_option autoImplicit false

namespace OnlineJudger

open Lib

/-! ### Numbers -/

/-- A number is smaller than the power of ten with as many digits. -/
theorem leadingNumber_lt (str : Text) : leadingNumber str < 10 ^ str.length := by
  have hdigits : ∀ c ∈ str.takeWhile Char.isDigit, c.isDigit = true :=
    fun c hc => List.mem_takeWhile_imp hc
  calc leadingNumber str < 10 ^ (str.takeWhile Char.isDigit).length := ofDigitChars_lt hdigits
    _ ≤ 10 ^ str.length :=
      Nat.pow_le_pow_right (by omega) (List.takeWhile_sublist _).length_le

/-- So is what `atoi` reads. -/
theorem atoi_toNat_lt (str : Text) : (atoi str).toNat < 10 ^ str.length := by
  have hsuffix : ∀ rest : Text, rest.length ≤ str.length → leadingNumber rest < 10 ^ str.length :=
    fun rest h => (leadingNumber_lt rest).trans_le (Nat.pow_le_pow_right (by omega) h)
  have hlen : (str.dropWhile isSpace).length ≤ str.length := (List.dropWhile_sublist _).length_le
  unfold atoi
  split
  · have hpos := Nat.pow_pos (n := str.length) (show 0 < 10 by omega)
    omega
  · next digits hdigits =>
    rw [hdigits, List.length_cons] at hlen
    exact hsuffix digits (by omega)
  · exact hsuffix _ hlen

/-- A digit is not a character that is none. -/
theorem ne_of_isDigit {c d : Char} (hc : c.isDigit = true) (hd : d.isDigit = false) : c ≠ d := by
  rintro rfl
  rw [hc] at hd
  exact Bool.noConfusion hd

/-- A number that starts with a digit. -/
theorem atoi_of_isDigit {c : Char} (hc : c.isDigit = true) (str : Text) :
    atoi (c :: str) = leadingNumber (c :: str) := by
  have hspace : isSpace c = false := by
    simp only [isSpace, Bool.or_eq_false_iff, beq_eq_false_iff_ne]
    exact ⟨⟨⟨⟨⟨ne_of_isDigit hc rfl, ne_of_isDigit hc rfl⟩, ne_of_isDigit hc rfl⟩,
      ne_of_isDigit hc rfl⟩, ne_of_isDigit hc rfl⟩, ne_of_isDigit hc rfl⟩
  unfold atoi
  rw [List.dropWhile_cons_of_neg (by rw [hspace]; exact Bool.false_ne_true)]
  split
  · next heq => exact absurd (List.cons.inj heq).1 (ne_of_isDigit hc rfl)
  · next heq => exact absurd (List.cons.inj heq).1 (ne_of_isDigit hc rfl)
  · rfl

namespace ZClientBase

/-! ### The bytes of a message -/

/-- The digit that does not fit in the head, and the bytes of the message behind it. -/
def tail (msg : Text) : Text :=
  if msg.length < 10000 then msg
  else Nat.digitChar (msg.length % 10) :: msg.take (msg.length - 1)

/-- The number in the four digits of the head. -/
def headNumber (msg : Text) : ℕ := if msg.length < 10000 then msg.length else msg.length / 10

/-- Behind the head there are as many bytes as the message has. -/
theorem length_tail (msg : Text) : (tail msg).length = msg.length := by
  unfold tail
  split
  · rfl
  · rw [List.length_cons, List.length_take]
    omega

/-- The head of a length that is not negative. -/
theorem head_natCast (len : ℕ) : head len = '@' :: padded 4 len := by
  unfold head
  rw [if_neg (by omega), Int.natAbs_natCast]
  rfl

/-- What is sent for a message: four digits in the head, and behind them what does not fit there.
With five digits the head has no room for the last one: it goes out in front of the message, whose
last byte is cut off. -/
theorem packet_eq {msg : Text} (h : msg.length < 100000) :
    ∃ digits, digits.length = 4 ∧ (∀ c ∈ digits, c.isDigit = true) ∧
      Nat.ofDigitChars 10 digits 0 = headNumber msg ∧
      packet msg = some ('@' :: (digits ++ tail msg)) := by
  -- no `int` wraps for a message of this length
  have hlen : toInt32 msg.length = msg.length := by
    unfold toInt32
    exact Int.bmod_eq_of_le (by omega) (by omega)
  have hsize : toInt32 ((msg.length : Int) + 5) = ((msg.length + 5 : ℕ) : Int) := by
    unfold toInt32
    exact Int.bmod_eq_of_le (by omega) (by omega)
  refine ⟨padded 4 (headNumber msg), length_padded (by omega) ?_, fun c => isDigit_of_mem_padded,
    ofDigitChars_padded 4 _, ?_⟩
  -- the four digits are the number that `headNumber` says
  · unfold headNumber
    split <;> omega
  · unfold packet
    simp only [hlen, hsize]
    rw [if_neg (by omega), Int.toNat_natCast]
    rw [head_natCast]
    unfold tail headNumber
    split
    -- the whole length fits in the head
    · next hlt =>
      rw [List.take_of_length_le]
      · rfl
      · rw [List.length_append, List.length_cons, length_padded (by omega) hlt]
        omega
    -- the length has five digits: the last one goes out in front of the message, whose last byte is
    -- cut off
    · next hge =>
      have hlength : (padded 4 (msg.length / 10)).length = 4 :=
        length_padded (by omega) (by omega)
      have hsize : msg.length + 5 = 4 + (msg.length - 1 + 1) + 1 := by omega
      rw [padded_succ (by omega) (show 10 ^ 4 ≤ msg.length by omega), hsize]
      generalize padded 4 (msg.length / 10) = digits at hlength ⊢
      rw [List.cons_append, List.take_succ_cons, List.append_assoc, ← hlength,
        List.take_length_add_append, List.singleton_append, List.take_succ_cons]

/-- No byte of a head is a NUL. -/
theorem nul_notMem_head (len : Int) : '\x00' ∉ head len := by
  unfold head
  intro hmem
  rcases List.mem_append.mp hmem with hmem | hmem
  · split at hmem
    · simp at hmem
    · simp at hmem
  · have hdigit := isDigit_of_mem_padded hmem
    exact Bool.noConfusion hdigit

/-- What is sent is a front of the head with the message, if anything is. -/
theorem packet_cases (msg : Text) :
    packet msg = none ∨ ∃ len size, packet msg = some ((head len ++ msg).take size) := by
  unfold packet
  simp only
  split
  · exact .inl rfl
  · exact .inr ⟨_, _, rfl⟩

/-- No message has a NUL, so the stream has none. By induction on the messages: a head is made of
digits and an `@`. -/
theorem nul_notMem_threadSend {msgs : List Text} (h : ∀ m ∈ msgs, '\x00' ∉ m) :
    '\x00' ∉ threadSend msgs := by
  induction msgs with
  | nil => exact List.not_mem_nil
  | cons m msgs ih =>
    have hrest := ih fun m' hm' => h m' (List.mem_cons_of_mem _ hm')
    rw [threadSend]
    split_ifs
    -- an empty message is not sent
    · exact hrest
    -- the exit message ends the sender
    · exact List.not_mem_nil
    -- any other one is a head and a part of the message, and neither has a NUL
    · rcases packet_cases m with hpacket | ⟨len, size, hpacket⟩
      · rw [hpacket]
        exact List.not_mem_nil
      · rw [hpacket]
        intro hmem
        rw [Option.elim_some] at hmem
        rcases List.mem_append.mp hmem with hmem | hmem
        · rcases List.mem_append.mp (List.mem_of_mem_take hmem) with hmem | hmem
          · exact nul_notMem_head _ hmem
          · exact h m (List.mem_cons_self ..) hmem
        · exact hrest hmem

/-- Nor has the part of the stream behind a head. -/
theorem nul_notMem_tail {msg : Text} (h : '\x00' ∉ msg) : '\x00' ∉ tail msg := by
  unfold tail
  split
  · exact h
  · intro hmem
    rcases List.mem_cons.mp hmem with hdigit | hmem
    · have hlt : Nat.digitChar (msg.length % 10) ≠ '\x00' := by
        refine ne_of_isDigit ?_ rfl
        rw [Nat.isDigit_digitChar]
        exact decide_eq_true (Nat.mod_lt _ (by omega))
      exact hlt hdigit.symm
    · exact h (List.mem_of_mem_take hmem)

/-- The sender does not look at the messages behind the exit message. -/
theorem threadSend_exit (msgs : List Text) : threadSend (exitMsg :: msgs) = [] := by
  rw [threadSend, if_neg (by decide), if_pos rfl]

/-- A message that is sent, up to 99999 bytes. -/
theorem threadSend_cons (msgs : List Text) {m : Text} (hne : m ≠ []) (hexit : m ≠ exitMsg)
    (hlt : m.length < 100000) :
    ∃ digits, digits.length = 4 ∧ (∀ c ∈ digits, c.isDigit = true) ∧
      Nat.ofDigitChars 10 digits 0 = headNumber m ∧
      threadSend (m :: msgs) = '@' :: (digits ++ (tail m ++ threadSend msgs)) := by
  obtain ⟨digits, hlength, hdigits, hnumber, hpacket⟩ := packet_eq hlt
  refine ⟨digits, hlength, hdigits, hnumber, ?_⟩
  rw [threadSend, if_neg hne, if_neg hexit, hpacket, Option.elim_some, List.cons_append,
    List.append_assoc]

/-! ### The length in a head -/

/-- The length that the receiver reads behind the mark. The sixth byte of its buffer counts as a
digit if it is one. -/
def lengthRead (scratch : Char) (number : ℕ) : ℕ :=
  if scratch.isDigit then 10 * number + (scratch.toNat - '0'.toNat) else number

/-- The length that `atoi` reads from the five bytes. The last of them is not written by `recv`, so
a digit that is left there counts as a fifth digit of the length. -/
theorem atoi_digits {digits : Text} (hlength : digits.length = 4)
    (hdigits : ∀ c ∈ digits, c.isDigit = true) (scratch : Char) :
    atoi (cString (digits ++ [scratch])) =
      lengthRead scratch (Nat.ofDigitChars 10 digits 0) := by
  -- digits are no NULs, so the C string goes on up to the sixth byte at least
  have hnul : ∀ c ∈ digits, decide (c ≠ '\x00') = true :=
    fun c hc => decide_eq_true (ne_of_isDigit (hdigits c hc) rfl)
  have hcString : cString (digits ++ [scratch]) = digits ++ cString [scratch] := by
    unfold cString
    rw [List.takeWhile_append_of_pos hnul]
  rw [hcString]
  have hlead : leadingNumber (digits ++ cString [scratch]) =
      lengthRead scratch (Nat.ofDigitChars 10 digits 0) := by
    unfold leadingNumber lengthRead
    rw [List.takeWhile_append_of_pos hdigits]
    split
    -- the sixth byte is a digit and counts as one more
    · next hscratch =>
      have hne : '\x00' ∉ [scratch] :=
        fun hmem => ne_of_isDigit hscratch rfl (List.mem_singleton.mp hmem).symm
      rw [cString_eq_self hne, List.takeWhile_cons_of_pos hscratch, List.takeWhile_nil,
        ofDigitChars_concat]
    -- it is a NUL or no digit, and the number ends in front of it
    · next hscratch =>
      have hnil : (cString [scratch]).takeWhile Char.isDigit = [] := by
        by_cases hne : '\x00' ∈ [scratch]
        · rw [← List.mem_singleton.mp hne]
          rfl
        · rw [cString_eq_self hne, List.takeWhile_cons_of_neg hscratch]
      rw [hnil, List.append_nil]
  cases digits with
  | nil => exact absurd hlength (by decide)
  | cons c digits =>
    rw [← hlead]
    exact atoi_of_isDigit (hdigits c (List.mem_cons_self ..)) _

/-! ### The messages that arrive -/

/-- The receiver reads the length of the message, and behind the head stands the message. The last
digit of a length of five digits is in front of the message, and the last byte of the message is
cut off. It does no harm if all bytes are that digit. -/
def Framed (scratch : Char) (msg : Text) : Prop :=
  msg ≠ exitMsg ∧
    ((msg.length < 10000 ∧ scratch.isDigit = false) ∨
      (10000 ≤ msg.length ∧ msg.length < 100000 ∧ scratch = Nat.digitChar (msg.length % 10) ∧
        ∀ c ∈ msg, c = scratch))

/-- A digit in front and the last byte cut off give the message again only if all of its bytes are
that digit. -/
theorem cons_take_eq_self_iff {c : Char} {msg : Text} (hne : msg ≠ []) :
    c :: msg.take (msg.length - 1) = msg ↔ ∀ d ∈ msg, d = c := by
  rw [← List.dropLast_eq_take]
  induction msg with
  | nil => exact absurd rfl hne
  | cons d msg ih =>
    cases msg with
    -- in a message of one byte, that byte is the digit
    | nil =>
      rw [List.dropLast_singleton, List.cons.injEq, List.forall_mem_singleton]
      exact ⟨fun h => h.1.symm, fun h => ⟨h.symm, rfl⟩⟩
    -- in a longer one the first byte is the digit, and the others are a shorter message
    | cons e msg =>
      rw [List.dropLast_cons_cons, List.cons.injEq, List.forall_mem_cons]
      constructor
      · rintro ⟨rfl, h⟩
        exact ⟨rfl, (ih (List.cons_ne_nil e msg)).mp h⟩
      · rintro ⟨rfl, h⟩
        exact ⟨rfl, (ih (List.cons_ne_nil e msg)).mpr h⟩

/-- A digit is known by its number. -/
theorem eq_digitChar_iff {c : Char} {n : ℕ} (hn : n < 10) :
    c = Nat.digitChar n ↔ c.isDigit = true ∧ c.toNat - '0'.toNat = n := by
  constructor
  · rintro rfl
    refine ⟨?_, Nat.toNat_digitChar_sub_48_of_lt_ten hn⟩
    rw [Nat.isDigit_digitChar]
    exact decide_eq_true hn
  · rintro ⟨hc, rfl⟩
    have hrange := Char.isDigit_iff_toNat.mp hc
    have hzero : '0'.toNat = 48 := rfl
    refine Char.toNat_inj.mp ?_
    rw [Nat.toNat_digitChar_of_lt_ten hn]
    omega

/-- A message arrives when its length is read and nothing of it is cut off. Which of the two can
fail depends on whether the length has four digits or five. -/
theorem framed_iff {scratch : Char} {msg : Text} (hne : msg ≠ []) :
    Framed scratch msg ↔ msg ≠ exitMsg ∧ msg.length < 100000 ∧
      lengthRead scratch (headNumber msg) = msg.length ∧ tail msg = msg := by
  have hpos := List.length_pos_iff.mpr hne
  unfold Framed lengthRead headNumber tail
  refine and_congr_right fun _ => ?_
  -- a short message: its length is read if the sixth byte adds nothing to it
  by_cases hshort : msg.length < 10000
  · simp only [if_pos hshort]
    constructor
    · rintro (⟨-, hscratch⟩ | ⟨hlong, -⟩)
      · rw [if_neg (Bool.eq_false_iff.mp hscratch)]
        exact ⟨by omega, rfl, trivial⟩
      · omega
    · rintro ⟨-, hlength, -⟩
      refine .inl ⟨hshort, Bool.eq_false_iff.mpr fun hscratch => ?_⟩
      rw [if_pos hscratch] at hlength
      omega
  -- a long one: the sixth byte has to be the digit that is missing in the head
  · simp only [if_neg hshort]
    rw [cons_take_eq_self_iff hne, eq_digitChar_iff (Nat.mod_lt _ (by omega))]
    constructor
    · rintro (⟨hlt, -⟩ | ⟨-, hlt, ⟨hdigit, hscratch⟩, hall⟩)
      · exact absurd hlt hshort
      · rw [if_pos hdigit]
        refine ⟨hlt, by omega, ?_⟩
        rw [(eq_digitChar_iff (Nat.mod_lt _ (by omega))).mpr ⟨hdigit, hscratch⟩] at hall
        exact hall
    · rintro ⟨hlt, hlength, hall⟩
      refine .inr ⟨by omega, hlt, ?_⟩
      split at hlength
      · next hdigit =>
        have hscratch : scratch.toNat - '0'.toNat = msg.length % 10 := by omega
        refine ⟨⟨hdigit, hscratch⟩, ?_⟩
        rw [(eq_digitChar_iff (Nat.mod_lt _ (by omega))).mpr ⟨hdigit, hscratch⟩]
        exact hall
      · omega

namespace Receiver

/-- The length is read from the five bytes behind the mark. -/
theorem lengthText_eq (head : Fin 32 → Char) :
    lengthText head = cString [head 1, head 2, head 3, head 4, head 5] := by
  have hbuffer : ∃ rest, (List.ofFn (Function.update head 6 '\x00')).drop 1 =
      [head 1, head 2, head 3, head 4, head 5] ++ '\x00' :: rest := ⟨_, rfl⟩
  obtain ⟨rest, hrest⟩ := hbuffer
  unfold lengthText
  rw [hrest, cString_append_nul]

/-- A length has at most five digits, whatever is in the buffer. -/
theorem atoi_lengthText_lt (head : Fin 32 → Char) : (atoi (lengthText head)).toNat < 100000 := by
  rw [lengthText_eq]
  have hlt := atoi_toNat_lt (cString [head 1, head 2, head 3, head 4, head 5])
  have hle := length_cString_le [head 1, head 2, head 3, head 4, head 5]
  have hpow := Nat.pow_le_pow_right (n := 10) (by omega) hle
  rw [show [head 1, head 2, head 3, head 4, head 5].length = 5 from rfl] at hpow
  omega

/-! ### The steps of the receiver -/

variable {s s' : Receiver}

/-- Behind a mark the length is read, and the NUL behind the head stays in the buffer. -/
theorem parseHead_of_mark (h : s.Marked) :
    s.parseHead = { s with
      head := Function.update s.head 6 '\x00'
      pc := if atoi (lengthText s.head) < 0 then .ended
        else .body (atoi (lengthText s.head)).toNat } := by
  unfold parseHead
  rw [if_neg (not_not_intro h)]

/-- Without a mark nothing happens. -/
theorem parseHead_of_no_mark (h : ¬s.Marked) : s.parseHead = s := by
  unfold parseHead
  rw [if_pos h]

/-- What `recv` has returned for a head. -/
theorem returns_of_recv_head (hpc : s.pc = .head) {n : ℕ} {fresh : Text}
    (h : s.recv n fresh = some s') : s.Returns 5 n := by
  unfold recv at h
  rw [hpc] at h
  simp only [Option.ite_none_right_eq_some] at h
  exact h.1

/-- What `recv` has returned for a message, and the buffer that is new. -/
theorem returns_of_recv_body {len : ℕ} (hpc : s.pc = .body len) {n : ℕ} {fresh : Text}
    (h : s.recv n fresh = some s') : s.Returns len n ∧ fresh.length = len := by
  unfold recv at h
  rw [hpc] at h
  simp only [Option.ite_none_right_eq_some] at h
  exact h.1

/-- `recv` has returned all bytes that it was asked for. -/
theorem consume_self (len : ℕ) : s.consume len len = { s with stream := s.stream.drop len } := by
  have hclosed : (len == 0 && len != 0) = false := by
    cases len <;> rfl
  unfold consume
  rw [hclosed, Bool.or_false]

/-- A whole head. The receiver stands in front of the body afterwards, with the length that it has
read. -/
theorem recv_head (fresh : Text) (hpc : s.pc = .head) {digits rest : Text}
    (hlength : digits.length = 4) (hdigits : ∀ c ∈ digits, c.isDigit = true)
    (hstream : s.stream = '@' :: (digits ++ rest)) :
    ∃ head, head 5 = s.head 5 ∧ s.recv 5 fresh = some { s with
      head
      pc := .body (lengthRead (s.head 5) (Nat.ofDigitChars 10 digits 0))
      stream := rest } := by
  -- the five bytes of the head, and the length that they give
  obtain ⟨d₁, d₂, d₃, d₄, rfl⟩ := List.length_eq_four.mp hlength
  let head := fill ['@', d₁, d₂, d₃, d₄] s.head
  have hatoi : atoi (lengthText head) =
      lengthRead (s.head 5) (Nat.ofDigitChars 10 [d₁, d₂, d₃, d₄] 0) := by
    rw [lengthText_eq]
    exact atoi_digits hlength hdigits (s.head 5)
  refine ⟨Function.update head 6 '\x00', rfl, ?_⟩
  -- they are all there
  have hreturns : s.Returns 5 5 := by
    refine ⟨Nat.le_refl 5, ?_, fun h => absurd h (by decide)⟩
    rw [hstream, List.length_cons, List.length_append, hlength]
    omega
  unfold recv
  rw [hpc]
  simp only [if_pos hreturns, consume_self, hstream]
  have hbytes : ('@' :: ([d₁, d₂, d₃, d₄] ++ rest)).take 5 = ['@', d₁, d₂, d₃, d₄] := rfl
  rw [hbytes, parseHead_of_mark (by rfl)]
  simp only [show fill ['@', d₁, d₂, d₃, d₄] s.head = head from rfl, hatoi, Int.toNat_natCast]
  rw [if_neg (by omega)]
  rfl

/-- A whole message. -/
theorem recv_body {len : ℕ} (hpc : s.pc = .body len) {fresh : Text} (hfresh : fresh.length = len)
    (hle : len ≤ s.stream.length) :
    s.recv len fresh = some ({ s with stream := s.stream.drop len }.deliver
      (cString (s.stream.take len))) := by
  have hreturns : s.Returns len len ∧ fresh.length = len :=
    ⟨⟨Nat.le_refl len, hle, .inl⟩, hfresh⟩
  unfold recv
  rw [hpc]
  simp only [if_pos hreturns, consume_self]
  rw [← hfresh, List.drop_length, List.append_nil]
  rfl

/-- Reading the length does not touch the stream. -/
@[simp] theorem parseHead_stream (s : Receiver) : s.parseHead.stream = s.stream := by
  unfold parseHead
  split <;> rfl

/-- And it delivers nothing. -/
@[simp] theorem parseHead_delivered (s : Receiver) : s.parseHead.delivered = s.delivered := by
  unfold parseHead
  split <;> rfl

/-- Behind a message comes a head. -/
@[simp] theorem deliver_pc (msg : Text) (s : Receiver) : (s.deliver msg).pc = .head := rfl

/-- The message is delivered behind the others. -/
@[simp] theorem deliver_delivered (msg : Text) (s : Receiver) :
    (s.deliver msg).delivered = s.delivered ++ [msg] := rfl

/-- Delivering it does not touch the stream. -/
@[simp] theorem deliver_stream (msg : Text) (s : Receiver) :
    (s.deliver msg).stream = s.stream := rfl

/-- A length has at most five digits. -/
theorem parseHead_body (hpc : s.pc = .head) {len : ℕ} (h : s.parseHead.pc = .body len) :
    len < 100000 := by
  unfold parseHead at h
  split at h
  · rw [hpc] at h
    exact ReceivPc.noConfusion h
  · simp only at h
    split at h
    · exact ReceivPc.noConfusion h
    · rw [← ReceivPc.body.inj h]
      exact atoi_lengthText_lt s.head

/-! ### Receiving as long as no call waits -/

/-- A whole head has come, or the call waits. -/
theorem of_recvAll_head (hpc : s.pc = .head) (h : s.recvAll = some s') :
    5 ≤ s.stream.length ∧ s'.stream = s.stream.drop 5 ∧ s'.delivered = s.delivered ∧
      ∀ len, s'.pc = .body len → len < 100000 := by
  unfold recvAll recv at h
  rw [hpc] at h
  simp only at h
  split_ifs at h with hreturns
  obtain rfl := Option.some.inj h
  refine ⟨hreturns.2.1, parseHead_stream _, parseHead_delivered _, ?_⟩
  intro len
  refine parseHead_body ?_
  exact hpc

/-- A whole message has come, or the call waits. -/
theorem of_recvAll_body {len : ℕ} (hpc : s.pc = .body len) (h : s.recvAll = some s') :
    len ≤ s.stream.length ∧ s' = { s with stream := s.stream.drop len }.deliver
      (cString (s.stream.take len)) := by
  unfold recvAll at h
  rw [hpc] at h
  simp only at h
  have hle : len ≤ s.stream.length := (returns_of_recv_body hpc h).1.2.1
  rw [recv_body hpc List.length_replicate hle] at h
  exact ⟨hle, (Option.some.inj h).symm⟩

/-- A thread that has ended receives nothing. -/
theorem recvAll_ended (hpc : s.pc = .ended) : s.recvAll = none := by
  unfold recvAll
  rw [hpc]

/-- A call that waits is the end. -/
theorem receive_of_none (h : s.recvAll = none) (fuel : ℕ) : receive fuel s = s := by
  cases fuel with
  | zero => rfl
  | succ fuel => rw [receive, h]

/-- A call that returns is one unit of fuel. -/
theorem receive_of_some (h : s.recvAll = some s') (fuel : ℕ) :
    receive (fuel + 1) s = receive fuel s' := by
  rw [receive, h]

/-- The messages stay, and each new one is shorter than 100000: no length that five digits can say
is greater. By induction on the fuel. -/
theorem delivered_receive (fuel : ℕ) (hbody : ∀ len, s.pc = .body len → len < 100000) :
    ∃ msgs, (receive fuel s).delivered = s.delivered ++ msgs ∧
      ∀ m ∈ msgs, m.length < 100000 := by
  induction fuel generalizing s with
  | zero => exact ⟨[], (List.append_nil _).symm, nofun⟩
  | succ fuel ih =>
    cases hrecv : s.recvAll with
    -- the call waits
    | none =>
      rw [receive_of_none hrecv]
      exact ⟨[], (List.append_nil _).symm, nofun⟩
    | some s' =>
      rw [receive_of_some hrecv]
      cases hpc : s.pc with
      | head =>
        -- a head delivers nothing
        obtain ⟨-, -, hdelivered, hbody'⟩ := of_recvAll_head hpc hrecv
        obtain ⟨msgs, hmsgs, hlt⟩ := ih hbody'
        exact ⟨msgs, by rw [hmsgs, hdelivered], hlt⟩
      | body len =>
        -- a message is delivered, cut at its first NUL
        obtain ⟨-, rfl⟩ := of_recvAll_body hpc hrecv
        obtain ⟨msgs, hmsgs, hlt⟩ := ih fun len h => by
          rw [deliver_pc] at h
          exact ReceivPc.noConfusion h
        refine ⟨cString (s.stream.take len) :: msgs, ?_, ?_⟩
        · rw [hmsgs, List.append_cons]
          rfl
        · intro m hm
          rcases List.mem_cons.mp hm with rfl | hm
          · have hle := length_cString_le (s.stream.take len)
            rw [List.length_take] at hle
            have hlen := hbody len hpc
            omega
          · exact hlt m hm
      | ended =>
        -- the thread has ended, so nothing is received
        rw [recvAll_ended hpc] at hrecv
        simp only [reduceCtorEq] at hrecv

/-- As much fuel as there are bytes is enough to reach a call that waits. By induction on the fuel:
each head takes five bytes, and an empty message comes behind a head. -/
theorem recvAll_receive (fuel : ℕ) (hhead : s.pc = .head → s.stream.length ≤ fuel)
    (hbody : ∀ len, s.pc = .body len → s.stream.length < fuel) :
    (receive fuel s).recvAll = none := by
  induction fuel generalizing s with
  | zero =>
    rw [receive]
    cases hrecv : s.recvAll with
    | none => rfl
    | some s' =>
      cases hpc : s.pc with
      | head =>
        -- a head takes five bytes, and there are none
        have hfive := (of_recvAll_head hpc hrecv).1
        have hzero := hhead hpc
        omega
      | body len => exact absurd (hbody len hpc) (Nat.not_lt_zero _)
      | ended => rw [← hrecv, recvAll_ended hpc]
  | succ fuel ih =>
    cases hrecv : s.recvAll with
    | none =>
      rw [receive_of_none hrecv]
      exact hrecv
    | some s' =>
      rw [receive_of_some hrecv]
      cases hpc : s.pc with
      | head =>
        -- five bytes less, and one unit of fuel less
        obtain ⟨hfive, hstream, -, -⟩ := of_recvAll_head hpc hrecv
        have hle := hhead hpc
        refine ih (fun _ => ?_) fun _ _ => ?_
        all_goals
          rw [hstream, List.length_drop]
          omega
      | body len =>
        -- a message may be empty, but then the receiver is in front of a head again
        obtain ⟨hlen, rfl⟩ := of_recvAll_body hpc hrecv
        have hlt := hbody len hpc
        refine ih (fun _ => ?_) fun _ h => ?_
        · rw [deliver_stream, List.length_drop]
          omega
        · rw [deliver_pc] at h
          exact ReceivPc.noConfusion h
      | ended =>
        rw [recvAll_ended hpc] at hrecv
        simp only [reduceCtorEq] at hrecv

/-! ### All messages in order -/

/-- The head of a message that is sent. -/
theorem recvAll_message (hpc : s.pc = .head) {m : Text} {msgs : List Text} (hne : m ≠ [])
    (hexit : m ≠ exitMsg) (hlt : m.length < 100000) (hstream : s.stream = threadSend (m :: msgs)) :
    ∃ head, head 5 = s.head 5 ∧ s.recvAll = some { s with
      head
      pc := .body (lengthRead (s.head 5) (headNumber m))
      stream := tail m ++ threadSend msgs } := by
  obtain ⟨digits, hlength, hdigits, hnumber, hsend⟩ := threadSend_cons msgs hne hexit hlt
  obtain ⟨head, hscratch, hrecv⟩ :=
    recv_head [] hpc hlength hdigits (hstream.trans hsend)
  refine ⟨head, hscratch, ?_⟩
  unfold recvAll
  rw [hpc]
  rw [hnumber] at hrecv
  exact hrecv

/-- A receiver that waits has delivered nothing more. -/
theorem ne_of_waits (hwaits : s.recvAll = none) (fuel : ℕ) (m : Text) (msgs : List Text) :
    (receive fuel s).delivered ≠ s.delivered ++ m :: msgs := by
  rw [receive_of_none hwaits]
  intro h
  exact List.cons_ne_nil m msgs (List.self_eq_append_right.mp h)

/-- The first message that arrives behind a head: what the stream has next, cut at its first NUL.
Later messages come behind it, so it stays the first. -/
theorem receive_body {fuel len : ℕ} (hpc : s.pc = .body len) {m : Text} {msgs : List Text}
    (h : (receive fuel s).delivered = s.delivered ++ m :: msgs) :
    len ≤ s.stream.length ∧ m = cString (s.stream.take len) := by
  cases hrecv : s.recvAll with
  | none => exact absurd h (ne_of_waits hrecv fuel m msgs)
  | some s' =>
    cases fuel with
    -- without fuel nothing more is delivered
    | zero => exact absurd (List.self_eq_append_right.mp h) (List.cons_ne_nil m msgs)
    | succ fuel =>
      obtain ⟨hle, rfl⟩ := of_recvAll_body hpc hrecv
      -- the first message that is delivered now stays the first
      have hbody : ∀ len', ({ s with stream := s.stream.drop len }.deliver
          (cString (s.stream.take len))).pc = .body len' → len' < 100000 := by
        intro len' hpc'
        exact ReceivPc.noConfusion hpc'
      obtain ⟨later, hlater, -⟩ := delivered_receive fuel hbody
      rw [receive_of_some hrecv, hlater, deliver_delivered, List.append_assoc,
        List.singleton_append] at h
      exact ⟨hle, ((List.cons.inj (List.append_cancel_left h)).1).symm⟩

/-- A message that does not arrive as it is. Either nothing is sent for it, or its length is read
wrong, or its last byte is missing, and what arrives first is another text in each case. -/
theorem receive_of_not_framed (fuel : ℕ) (hpc : s.pc = .head) {m : Text} {msgs : List Text}
    (hne : m ≠ []) (hnul : ∀ m' ∈ m :: msgs, '\x00' ∉ m')
    (hstream : s.stream = threadSend (m :: msgs)) (hframed : ¬Framed (s.head 5) m) :
    (receive fuel s).delivered ≠ s.delivered ++ m :: msgs := by
  intro h
  by_cases hexit : m = exitMsg
  · -- the loop of the sender has ended, so there is nothing to receive
    rw [hexit, threadSend_exit] at hstream
    cases hrecv : s.recvAll with
    | none => exact ne_of_waits hrecv fuel m msgs h
    | some s' =>
      have hfive := (of_recvAll_head hpc hrecv).1
      rw [hstream, List.length_nil] at hfive
      omega
  · by_cases hlt : m.length < 100000
    · obtain ⟨head, hscratch, hrecv⟩ := recvAll_message hpc hne hexit hlt hstream
      cases fuel with
      | zero => exact absurd (List.self_eq_append_right.mp h) (List.cons_ne_nil m msgs)
      | succ fuel =>
        rw [receive_of_some hrecv] at h
        obtain ⟨hle, hm⟩ := receive_body rfl h
        -- the bytes that arrive have the length that is read
        have hbytes : '\x00' ∉ tail m ++ threadSend msgs := by
          intro hmem
          rcases List.mem_append.mp hmem with hmem | hmem
          · exact nul_notMem_tail (hnul m (List.mem_cons_self ..)) hmem
          · exact nul_notMem_threadSend (fun m' hm' => hnul m' (List.mem_cons_of_mem _ hm')) hmem
        rw [cString_eq_self fun hmem => hbytes (List.mem_of_mem_take hmem)] at hm
        have hlength := congrArg List.length hm
        rw [List.length_take, Nat.min_eq_left hle] at hlength
        refine hframed ((framed_iff hne).mpr ⟨hexit, hlt, hlength.symm, ?_⟩)
        rw [← hlength, ← length_tail, List.take_left] at hm
        exact hm.symm
    · -- no length of six digits is read
      have hbody : ∀ len, s.pc = .body len → len < 100000 := by
        intro len hpc'
        rw [hpc] at hpc'
        exact ReceivPc.noConfusion hpc'
      obtain ⟨later, hlater, hshort⟩ := delivered_receive fuel hbody
      rw [hlater] at h
      obtain rfl := List.append_cancel_left h
      exact hlt (hshort m (List.mem_cons_self ..))

/-- A message that arrives. Two calls of `recv` take its head and its body, and the receiver is in
front of the next head with the messages behind this one still to come. -/
theorem receive_of_framed (hpc : s.pc = .head) {m : Text} {msgs : List Text} (hne : m ≠ [])
    (hnul : '\x00' ∉ m) (hstream : s.stream = threadSend (m :: msgs))
    (hframed : Framed (s.head 5) m) :
    ∃ s', s'.pc = .head ∧ s'.head 5 = s.head 5 ∧ s'.stream = threadSend msgs ∧
      s'.delivered = s.delivered ++ [m] ∧ s'.stream.length + 2 ≤ s.stream.length ∧
      ∀ fuel, receive (fuel + 2) s = receive fuel s' := by
  -- the head is read, then the body, and the receiver is in front of a head again
  obtain ⟨hexit, hlt, hlength, htail⟩ := (framed_iff hne).mp hframed
  obtain ⟨head, hscratch, hrecv⟩ := recvAll_message hpc hne hexit hlt hstream
  rw [hlength, htail] at hrecv
  let s₁ : Receiver := { s with head, pc := .body m.length, stream := m ++ threadSend msgs }
  -- the stream has the whole body
  have hle : m.length ≤ s₁.stream.length := by
    rw [List.length_append]
    omega
  have hbody : s₁.recvAll = _ := recv_body rfl List.length_replicate hle
  rw [List.take_left, List.drop_left, cString_eq_self hnul] at hbody
  refine ⟨{ s₁ with stream := threadSend msgs }.deliver m, rfl, hscratch, rfl, rfl, ?_, ?_⟩
  -- a head has five bytes
  · obtain ⟨hfive, hdrop, -, -⟩ := of_recvAll_head hpc hrecv
    have hlen := congrArg List.length hdrop
    rw [List.length_append, List.length_drop] at hlen
    show (threadSend msgs).length + 2 ≤ s.stream.length
    omega
  · intro fuel
    rw [receive_of_some hrecv, receive_of_some hbody]

/-- With enough fuel, all messages arrive exactly when each of them does. By induction on the
messages. -/
theorem delivered_eq_iff {fuel : ℕ} (hpc : s.pc = .head) {msgs : List Text}
    (hmsgs : ∀ m ∈ msgs, m ≠ [] ∧ '\x00' ∉ m) (hstream : s.stream = threadSend msgs)
    (hfuel : s.stream.length ≤ fuel) :
    (receive fuel s).delivered = s.delivered ++ msgs ↔ ∀ m ∈ msgs, Framed (s.head 5) m := by
  induction msgs generalizing s fuel with
  | nil =>
    have hwaits : s.recvAll = none := by
      -- nothing is left in the stream, so the next `recv` waits
      cases hrecv : s.recvAll with
      | none => rfl
      | some s' =>
        have hfive := (of_recvAll_head hpc hrecv).1
        rw [hstream, threadSend, List.length_nil] at hfive
        omega
    rw [receive_of_none hwaits, List.append_nil]
    exact ⟨fun _ => nofun, fun _ => rfl⟩
  | cons m msgs ih =>
    rw [List.forall_mem_cons] at hmsgs ⊢
    obtain ⟨⟨hne, hnul⟩, hmsgs⟩ := hmsgs
    -- the first message arrives, and the others are shorter
    by_cases hframed : Framed (s.head 5) m
    · obtain ⟨s', hpc', hscratch, hstream', hdelivered, hlength, hreceive⟩ :=
        receive_of_framed hpc hne hnul hstream hframed
      obtain ⟨fuel, rfl⟩ := Nat.exists_eq_add_of_le' (show 2 ≤ fuel by omega)
      have hrest := ih hpc' hmsgs hstream' (show s'.stream.length ≤ fuel by omega)
      rw [hscratch, hdelivered, List.append_assoc, List.singleton_append, ← hreceive] at hrest
      rw [hrest]
      exact (and_iff_right hframed).symm
    -- it does not, so it is not the first that is delivered
    · have hall : ∀ m' ∈ m :: msgs, '\x00' ∉ m' :=
        List.forall_mem_cons.mpr ⟨hnul, fun m' hm' => (hmsgs m' hm').2⟩
      have hnot := receive_of_not_framed fuel hpc hne hall hstream hframed
      exact ⟨fun h => absurd h hnot, fun h => absurd h.1 hframed⟩

/-- The receiver that gets all bytes of the sender ends in a call that waits, and it has delivered
the messages exactly when each of them is framed. A message that is not framed ends the sender, or
its head is read with a wrong length: the number goes on over a digit that stands in the buffer
behind the head, and a fifth digit is sent in front of the message. -/
theorem messages_arrive_iff (head : Fin 32 → Char) (msgs : List Text)
    (hmsgs : ∀ m ∈ msgs, m ≠ [] ∧ '\x00' ∉ m) :
    (receive (threadSend msgs).length (start head (threadSend msgs))).recvAll = none ∧
      ((receive (threadSend msgs).length (start head (threadSend msgs))).delivered = msgs ↔
        ∀ m ∈ msgs, Framed (head 5) m) := by
  refine ⟨?_, delivered_eq_iff rfl hmsgs rfl (Nat.le_refl _)⟩
  refine recvAll_receive _ (fun _ => Nat.le_refl _) ?_
  intro len hpc
  exact ReceivPc.noConfusion hpc

/-- Two messages arrive in a buffer of NULs. Both are framed, since the NUL behind the head ends the
number. -/
theorem messages_arrive_two :
    let msgs := ["hello".toList, "a b".toList]
    let r := receive (threadSend msgs).length (start (fun _ => '\x00') (threadSend msgs))
    r.recvAll = none ∧ r.delivered = msgs := by
  intro msgs r
  have hmsgs : ∀ m ∈ msgs, m ≠ [] ∧ '\x00' ∉ m := by decide
  have hframed : ∀ m ∈ msgs, Framed '\x00' m := by
    intro m hm
    simp only [msgs, List.mem_cons, List.not_mem_nil, or_false] at hm
    rcases hm with rfl | rfl
    · exact ⟨by decide, .inl ⟨by decide, rfl⟩⟩
    · exact ⟨by decide, .inl ⟨by decide, rfl⟩⟩
  obtain ⟨hwaits, hiff⟩ := messages_arrive_iff (fun _ => '\x00') msgs hmsgs
  exact ⟨hwaits, hiff.mpr hframed⟩

/-- A message with the text of the exit message ends the sender, so neither it nor the one behind it
arrives. A digit behind the head becomes a part of the length. -/
theorem messages_lost :
    (receive (threadSend ["$exit".toList, "hello".toList]).length (start (fun _ => '\x00')
        (threadSend ["$exit".toList, "hello".toList]))).delivered ≠
        ["$exit".toList, "hello".toList] ∧
      (receive (threadSend ["hello".toList]).length (start (fun _ => '0')
        (threadSend ["hello".toList]))).delivered ≠ ["hello".toList] := by
  decide

/-! ### Parts of messages, and the end of the stream -/

/-- `recv` returns whole heads and whole messages, and the end of the stream finds no mark in the
buffer. -/
def Whole (s : Receiver) : ReceivAction → Prop
  | .recv n _ =>
    match s.pc with
    | .head => n = 5 ∨ (n = 0 ∧ ¬s.Marked)
    | .body len => n = len
    | .ended => True
  | .fail => True
  | .stop => True

/-- What is delivered and what is still to come. -/
inductive Place (msgs : List Text) (s : Receiver) : Prop where
  | head (todo : List Text) (hpc : s.pc = .head) (hmsgs : msgs = s.delivered ++ todo)
      (hstream : s.stream <+: threadSend todo) (hclosed : s.closed = true → s.stream = [])
  | body (m : Text) (todo : List Text) (hpc : s.pc = .body m.length)
      (hmsgs : msgs = s.delivered ++ m :: todo) (hstream : s.stream <+: m ++ threadSend todo)
      (hclosed : s.closed = false)
  | ended (hpc : s.pc = .ended) (hmsgs : s.delivered <+: msgs)

/-- What holds along a run whose calls return whole parts: the sixth byte is never written, nothing
has come behind the end, and the receiver is in front of a head or of a message. -/
structure Inv (scratch : Char) (msgs : List Text) (s : Receiver) : Prop where
  scratch : s.head 5 = scratch
  late : s.late = []
  place : Place msgs s

/-- At either place the delivered messages are the first ones. -/
theorem Place.delivered_prefix {msgs : List Text} (h : Place msgs s) : s.delivered <+: msgs := by
  cases h with
  | head todo _ hmsgs _ _ => exact ⟨todo, hmsgs.symm⟩
  | body m todo _ hmsgs _ _ => exact ⟨m :: todo, hmsgs.symm⟩
  | ended _ hmsgs => exact hmsgs

/-- The receiver is in front of a head. -/
theorem Place.of_head {msgs : List Text} (h : Place msgs s) (hpc : s.pc = .head) :
    ∃ todo, msgs = s.delivered ++ todo ∧ s.stream <+: threadSend todo ∧
      (s.closed = true → s.stream = []) := by
  cases h with
  | head todo _ hmsgs hstream hclosed => exact ⟨todo, hmsgs, hstream, hclosed⟩
  | body m todo hpc' _ _ _ =>
    rw [hpc] at hpc'
    exact ReceivPc.noConfusion hpc'
  | ended hpc' _ =>
    rw [hpc] at hpc'
    exact ReceivPc.noConfusion hpc'

/-- The receiver is in front of a message. -/
theorem Place.of_body {msgs : List Text} (h : Place msgs s) {len : ℕ} (hpc : s.pc = .body len) :
    ∃ m todo, len = m.length ∧ msgs = s.delivered ++ m :: todo ∧
      s.stream <+: m ++ threadSend todo ∧ s.closed = false := by
  cases h with
  | head todo hpc' _ _ _ =>
    rw [hpc] at hpc'
    exact ReceivPc.noConfusion hpc'
  | ended hpc' _ =>
    rw [hpc] at hpc'
    exact ReceivPc.noConfusion hpc'
  | body m todo hpc' hmsgs hstream hclosed =>
    exact ⟨m, todo, ReceivPc.body.inj (hpc.symm.trans hpc'), hmsgs, hstream, hclosed⟩

/-- The first five bytes of the stream are the head of the next message. The stream is a front of
what is sent, so it need not have the body yet. -/
theorem exists_head {todo : List Text} (htodo : ∀ m ∈ todo, 0 < m.length ∧ m.length ≤ 9999)
    {stream : Text} (hstream : stream <+: threadSend todo) (hfive : 5 ≤ stream.length) :
    ∃ m rest digits bytes, todo = m :: rest ∧ digits.length = 4 ∧
      (∀ c ∈ digits, c.isDigit = true) ∧ Nat.ofDigitChars 10 digits 0 = m.length ∧
      stream = '@' :: (digits ++ bytes) ∧ bytes <+: m ++ threadSend rest := by
  -- the stream has five bytes, so some message is sent
  have hne : threadSend todo ≠ [] := by
    intro hnil
    rw [hnil, List.prefix_nil] at hstream
    rw [hstream, List.length_nil] at hfive
    omega
  cases todo with
  | nil => exact absurd rfl hne
  | cons m rest =>
    obtain ⟨hpos, hle⟩ := htodo m (List.mem_cons_self ..)
    -- and that message is not the one that ends the sender
    have hexit : m ≠ exitMsg := by
      rintro rfl
      exact hne (threadSend_exit rest)
    obtain ⟨digits, hlength, hdigits, hnumber, hsend⟩ :=
      threadSend_cons rest (List.length_pos_iff.mp hpos) hexit (by omega)
    unfold headNumber at hnumber
    unfold tail at hsend
    rw [if_pos (show m.length < 10000 by omega)] at hnumber hsend
    -- the head and the stream are both fronts of what is sent
    have hprefix : '@' :: digits <+: threadSend (m :: rest) := by
      rw [hsend, ← List.cons_append]
      exact List.prefix_append ..
    -- and the head is not longer
    have hlen : ('@' :: digits).length ≤ stream.length := by
      rw [List.length_cons, hlength]
      exact hfive
    obtain ⟨bytes, rfl⟩ := List.prefix_of_prefix_length_le hprefix hstream hlen
    rw [hsend, ← List.cons_append, List.prefix_append_right_inj] at hstream
    exact ⟨m, rest, digits, bytes, rfl, hlength, hdigits, hnumber, rfl, hstream⟩

/-- The `recv` of a head. A call that returns whole takes the head of the next message; one that
returns nothing ends the thread. -/
theorem Inv.recv_head {scratch : Char} (hscratch : scratch.isDigit = false) {msgs : List Text}
    (hmsgs : ∀ m ∈ msgs, 0 < m.length ∧ m.length ≤ 9999) (h : Inv scratch msgs s)
    (hpc : s.pc = .head) {n : ℕ} {fresh : Text} (hn : n = 5 ∨ (n = 0 ∧ ¬s.Marked))
    (hstep : s.recv n fresh = some s') : Inv scratch msgs s' := by
  obtain ⟨todo, hsplit, hstream, hclosed⟩ := h.place.of_head hpc
  have hreturns := returns_of_recv_head hpc hstep
  rcases hn with rfl | ⟨rfl, hmark⟩
  · have htodo : ∀ m ∈ todo, 0 < m.length ∧ m.length ≤ 9999 := by
      intro m hm
      exact hmsgs m (hsplit ▸ List.mem_append_right _ hm)
    obtain ⟨m, rest, digits, bytes, rfl, hlength, hdigits, hnumber, hs, hbytes⟩ :=
      exists_head htodo hstream hreturns.2.1
    obtain ⟨head, hhead, hrecv⟩ :=
      Receiver.recv_head fresh hpc hlength hdigits hs
    rw [hstep, Option.some.injEq] at hrecv
    subst hrecv
    have hopen : s.closed = false := by
      by_contra hnot
      rw [hclosed (Bool.eq_true_of_not_eq_false hnot)] at hs
      exact List.cons_ne_nil _ _ hs.symm
    refine ⟨hhead.trans h.scratch, h.late, .body m rest ?_ hsplit hbytes hopen⟩
    show ReceivPc.body (lengthRead (s.head 5) (Nat.ofDigitChars 10 digits 0)) = _
    unfold lengthRead
    rw [hnumber, h.scratch, hscratch, if_neg Bool.false_ne_true]
  · -- the end of the stream: the buffer is as it was, and it has no mark
    have hnil : s.stream = [] := (hreturns.2.2 rfl).resolve_left (by decide)
    have hrecv : s.recv 0 fresh = some { s with closed := true } := by
      unfold recv
      rw [hpc]
      simp only [if_pos hreturns]
      rw [parseHead_of_no_mark (by exact hmark)]
      unfold consume
      rw [hnil, hpc, Bool.or_comm]
      rfl
    rw [hstep, Option.some.injEq] at hrecv
    subst hrecv
    exact ⟨h.scratch, h.late, .head todo hpc hsplit hstream fun _ => hnil⟩

/-- The `recv` of a message. The invariant says which message the head was for, so a whole part is
that message. -/
theorem Inv.recv_body {scratch : Char} {msgs : List Text} (hmsgs : ∀ m ∈ msgs, '\x00' ∉ m)
    (h : Inv scratch msgs s) {len : ℕ} (hpc : s.pc = .body len) {fresh : Text}
    (hstep : s.recv len fresh = some s') : Inv scratch msgs s' := by
  -- a whole message has come, and it is the next one
  obtain ⟨m, todo, rfl, hsplit, hstream, hopen⟩ := h.place.of_body hpc
  obtain ⟨⟨-, hle, -⟩, hfresh⟩ := returns_of_recv_body hpc hstep
  obtain ⟨bytes, hbytes⟩ := List.prefix_of_prefix_length_le (List.prefix_append ..) hstream hle
  rw [Receiver.recv_body hpc hfresh hle, ← hbytes, List.take_left, List.drop_left,
    cString_eq_self (hmsgs m (by rw [hsplit]; simp))] at hstep
  rw [← hbytes, List.prefix_append_right_inj] at hstream
  obtain rfl := Option.some.inj hstep
  refine ⟨h.scratch, ?_, .head todo rfl ?_ hstream fun hclosed => ?_⟩
  -- the stream was open, so nothing is late
  · show (if s.closed then s.late ++ [m] else s.late) = []
    rw [hopen, if_neg Bool.false_ne_true, h.late]
  · rw [deliver_delivered, List.append_assoc, List.singleton_append]
    exact hsplit
  -- it still is
  · have hclosed : s.closed = true := hclosed
    rw [hopen] at hclosed
    exact Bool.noConfusion hclosed

/-- Each step that returns a whole part keeps it. The condition on the step is used for `recv` only:
an error and `stop` end the thread with what it has delivered. -/
theorem Inv.step {scratch : Char} (hscratch : scratch.isDigit = false) {msgs : List Text}
    (hmsgs : ∀ m ∈ msgs, (0 < m.length ∧ m.length ≤ 9999) ∧ '\x00' ∉ m) (h : Inv scratch msgs s)
    {a : ReceivAction} (hwhole : Whole s a) (hstep : s.step a = some s') : Inv scratch msgs s' := by
  -- a thread that ends keeps what it has delivered
  have hended : Inv scratch msgs { s with pc := .ended } :=
    ⟨h.scratch, h.late, .ended rfl h.place.delivered_prefix⟩
  cases a with
  | recv n fresh =>
    cases hpc : s.pc with
    | head =>
      unfold Whole at hwhole
      simp only [hpc] at hwhole
      exact h.recv_head hscratch (fun m hm => (hmsgs m hm).1) hpc hwhole hstep
    | body len =>
      unfold Whole at hwhole
      simp only [hpc] at hwhole
      rw [hwhole] at hstep
      exact h.recv_body (fun m hm => (hmsgs m hm).2) hpc hstep
    | ended =>
      unfold Receiver.step recv at hstep
      rw [hpc] at hstep
      simp only [reduceCtorEq] at hstep
  | fail =>
    change (if s.pc = .ended then none else some { s with pc := .ended }) = some s' at hstep
    split_ifs at hstep
    obtain rfl := Option.some.inj hstep
    exact hended
  | stop =>
    change (if s.pc = .head then some { s with pc := .ended } else none) = some s' at hstep
    split_ifs at hstep
    obtain rfl := Option.some.inj hstep
    exact hended

/-- The peer has sent messages of 1 to 9999 bytes, and the stream may break off anywhere. The
messages that are delivered are the first ones, each of them whole, and none is delivered behind the
end of the stream. The condition is on the calls of `recv`: each returns a whole head or a whole
message, and the end of the stream finds no mark in the buffer. -/
theorem delivered_prefix_of_whole {head : Fin 32 → Char} (hscratch : (head 5).isDigit = false)
    {msgs : List Text} (hmsgs : ∀ m ∈ msgs, (0 < m.length ∧ m.length ≤ 9999) ∧ '\x00' ∉ m)
    {stream : Text} (hstream : stream <+: threadSend msgs) {actions : List ReceivAction}
    (hwhole : Along step Whole (start head stream) actions)
    (hrun : run step (start head stream) actions = some s) :
    s.delivered <+: msgs ∧ s.late = [] := by
  have hstep : ∀ s a s', Whole s a → Inv (head 5) msgs s → step s a = some s' →
      Inv (head 5) msgs s' := fun _ _ _ hwhole h hstep => h.step hscratch hmsgs hwhole hstep
  have hstart : Inv (head 5) msgs (start head stream) :=
    ⟨rfl, rfl, .head msgs rfl rfl hstream fun h => Bool.noConfusion h⟩
  have hinv := run_invariant_along hstep hwhole hstart hrun
  exact ⟨hinv.place.delivered_prefix, hinv.late⟩

/-- One message in two calls of `recv`: the head in the first one, the text in the second. -/
theorem delivered_prefix_of_whole_hello :
    ∃ s, run step (start (fun _ => '\x00') (threadSend ["hello".toList]))
        [.recv 5 [], .recv 5 "-----".toList] = some s ∧
      s.delivered <+: ["hello".toList] ∧ s.late = [] := by
  have hmsgs : ∀ m ∈ ["hello".toList], (0 < m.length ∧ m.length ≤ 9999) ∧ '\x00' ∉ m := by decide
  have hrun : ∃ s, run step (start (fun _ => '\x00') (threadSend ["hello".toList]))
      [.recv 5 [], .recv 5 "-----".toList] = some s := ⟨_, rfl⟩
  obtain ⟨s, hrun⟩ := hrun
  have hwhole : Along step Whole (start (fun _ => '\x00') (threadSend ["hello".toList]))
      [.recv 5 [], .recv 5 "-----".toList] := ⟨.inl rfl, rfl, trivial⟩
  exact ⟨s, hrun, delivered_prefix_of_whole rfl hmsgs List.prefix_rfl hwhole hrun⟩

/-- The peer sends a message and closes. The receiver finds the old head in its buffer, and it
delivers what a new buffer of that length holds. With a `recv` of three bytes only, a part of
such a buffer is delivered too. -/
theorem buffer_delivered :
    (∃ s, run step (start (fun _ => '\x00') (threadSend ["hello".toList]))
        [.recv 5 [], .recv 5 "-----".toList, .recv 0 [], .recv 0 "-----".toList] = some s ∧
      ¬s.delivered <+: ["hello".toList] ∧ s.late ≠ []) ∧
    ∃ s, run step (start (fun _ => '\x00') (threadSend ["hello".toList]))
        [.recv 5 [], .recv 3 "-----".toList] = some s ∧ ¬s.delivered <+: ["hello".toList] :=
  ⟨⟨_, rfl, by decide, by decide⟩, _, rfl, by decide⟩

end Receiver

end ZClientBase

end OnlineJudger
