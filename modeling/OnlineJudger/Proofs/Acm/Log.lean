import OnlineJudger.Acm.Log
import OnlineJudger.Lib.Mutex
import OnlineJudger.Lib.Progress
import OnlineJudger.Lib.Slots

/-!
# `OnlineJudger.Proofs.Acm.Log`: the lines of the log

Threads write to one log in any interleaving.

* `Move`: what one step of a thread does. `Inv.step` keeps the invariant: each mutex has at most one
  thread inside, the shared buffer holds the text of the thread that has formatted it, and the file
  holds whole lines and at most one part of a line.
* `log_lines`: the lines of a thread are its calls, in order.

Both hold for a log that `init` has opened, and for texts that the locale of the stream can convert
(`LogLocale.Writes`). The stream does not come back from a character that it cannot convert.
-/

set_option autoImplicit false

namespace OnlineJudger.CLog

open Lib

/-! ### The stream -/

/-- The text of the line that the call writes. -/
def LogCall.text (page : CodePage) : LogCall → Text
  | .writeA buffer => charToWChar page buffer
  | .xwriteA text => charToWChar page (cString text)

/-- The stream converts the ASCII characters, as in every locale, and the texts of all calls. -/
structure LogLocale.Writes (loc : LogLocale) (calls : List (List LogCall)) : Prop where
  ascii : ∀ ch : Char, ch.toNat < 128 → loc.convertible ch = true
  text : ∀ todo ∈ calls, ∀ call ∈ todo, ∀ ch ∈ call.text loc.page, loc.convertible ch = true

/-- The time of a line is ASCII: it consists of digits and of the characters of the format. So every
code page can write it. -/
theorem ascii_of_mem_generateTimeHead {systm : SYSTEMTIME} {ch : Char}
    (h : ch ∈ generateTimeHead systm) : ch.toNat < 128 := by
  -- the three numbers are padded to two digits
  have hdigit : ∀ n, ch ∈ padded 2 n → ch.toNat < 128 := by
    intro n hn
    have hrange := Char.isDigit_iff_toNat.mp (isDigit_of_mem_padded hn)
    have hnine : '9'.toNat = 57 := rfl
    omega
  -- no longer than the part in front of a NUL
  have hmem := (List.takeWhile_sublist _).subset h
  simp only [List.cons_append, List.append_assoc, List.mem_cons, List.mem_append] at hmem
  rcases hmem with rfl | hn | rfl | hn | rfl | hn | hlast
  · decide
  · exact hdigit _ hn
  · decide
  · exact hdigit _ hn
  · decide
  · exact hdigit _ hn
  · have hall : ("]: ".toList.all fun ch => decide (ch.toNat < 128)) = true := by decide
    exact of_decide_eq_true (List.all_eq_true.mp hall ch hlast)

/-- The stream converts the time of a line. -/
theorem LogLocale.Writes.time {loc : LogLocale} {calls : List (List LogCall)}
    (h : loc.Writes calls) (systm : SYSTEMTIME) :
    ∀ ch ∈ generateTimeHead systm, loc.convertible ch = true :=
  fun ch hch => h.ascii ch (ascii_of_mem_generateTimeHead hch)

/-- The stream converts the end of a line. -/
theorem LogLocale.Writes.endl {loc : LogLocale} {calls : List (List LogCall)}
    (h : loc.Writes calls) : loc.convertible '\n' = true :=
  h.ascii '\n' (by decide)

namespace LogState

/-- A text that the stream converts goes out as a whole. -/
theorem put_file {loc : LogLocale} {s : LogState} {text : Text} (hgood : s.good = true)
    (h : ∀ ch ∈ text, loc.convertible ch = true) : (s.put loc text).file = s.file ++ text := by
  rw [put, hgood, if_pos rfl, List.takeWhile_eq_self_iff.mpr h]

/-- The stream stays good. -/
theorem put_good {loc : LogLocale} {s : LogState} {text : Text} (hgood : s.good = true)
    (h : ∀ ch ∈ text, loc.convertible ch = true) : (s.put loc text).good = true := by
  rw [put, hgood, Bool.true_and]
  exact List.all_eq_true.mpr h

end LogState

/-! ### What a step does -/

namespace LogState

/-- A thread moves from one place to the next, and the shared part of the state changes. -/
inductive Move (loc : LogLocale) (s : LogState) (i : ℕ) :
    LogThread → LogThread → LogState → Prop where
  | writeA {buffer : Text} {todo : List LogCall} :
      Move loc s i ⟨.idle, .writeA buffer :: todo⟩
        ⟨.write false (charToWChar loc.page buffer), todo⟩ s
  | xwriteA {text : Text} {todo : List LogCall} :
      Move loc s i ⟨.idle, .xwriteA text :: todo⟩ ⟨.formatLock text, todo⟩ s
  | formatLock {text : Text} {todo : List LogCall} (hfree : s.formatMutex = none) :
      Move loc s i ⟨.formatLock text, todo⟩ ⟨.format text, todo⟩ { s with formatMutex := some i }
  | format {text : Text} {todo : List LogCall} (hfits : text.length < MAX_SIZE_BUFFER) :
      Move loc s i ⟨.format text, todo⟩ ⟨.copy text, todo⟩
        { s with buffer := formatInto text s.buffer }
  | tooLong {text : Text} {todo : List LogCall} (hlong : ¬ text.length < MAX_SIZE_BUFFER) :
      Move loc s i ⟨.format text, todo⟩ ⟨.format text, todo⟩ { s with ended := true }
  | copy {text : Text} {todo : List LogCall} :
      Move loc s i ⟨.copy text, todo⟩
        ⟨.write true (charToWChar loc.page (cString s.buffer)), todo⟩ s
  | write {nested : Bool} {buffer : Text} {todo : List LogCall} (husefull : s.usefull = true) :
      Move loc s i ⟨.write nested buffer, todo⟩ ⟨.writeLock nested buffer, todo⟩ s
  | useless {nested : Bool} {buffer : Text} {todo : List LogCall} (husefull : s.usefull = false) :
      Move loc s i ⟨.write nested buffer, todo⟩ ⟨.leave nested, todo⟩ s
  | writeLock {nested : Bool} {buffer : Text} {todo : List LogCall} (hfree : s.writeMutex = none) :
      Move loc s i ⟨.writeLock nested buffer, todo⟩ ⟨.header nested buffer, todo⟩
        { s with writeMutex := some i }
  | header {nested : Bool} {buffer : Text} {todo : List LogCall} {systm : SYSTEMTIME} :
      Move loc s i ⟨.header nested buffer, todo⟩
        ⟨.body nested (generateTimeHead systm) buffer, todo⟩
        (s.put loc (generateTimeHead systm))
  | body {nested : Bool} {head buffer : Text} {todo : List LogCall} :
      Move loc s i ⟨.body nested head buffer, todo⟩ ⟨.endl nested head buffer, todo⟩
        (s.put loc buffer)
  | endl {nested : Bool} {head buffer : Text} {todo : List LogCall} :
      Move loc s i ⟨.endl nested head buffer, todo⟩ ⟨.writeUnlock nested, todo⟩
        { s.put loc ['\n'] with lines := s.lines ++ [⟨i, head, buffer⟩] }
  | writeUnlock {nested : Bool} {todo : List LogCall} :
      Move loc s i ⟨.writeUnlock nested, todo⟩ ⟨.leave nested, todo⟩ { s with writeMutex := none }
  | formatUnlock {todo : List LogCall} :
      Move loc s i ⟨.formatUnlock, todo⟩ ⟨.idle, todo⟩ { s with formatMutex := none }

variable {loc : LogLocale} {s s' : LogState} {i : ℕ} {c c' : LogThread} {u : LogState}

/-- A thread that does not change. -/
theorem set_self {threads : List LogThread} (hc : threads[i]? = some c) :
    threads.set i c = threads := by
  obtain ⟨hi, rfl⟩ := List.getElem?_eq_some_iff.mp hc
  exact List.set_getElem_self hi

/-- Every step is a move of one thread. This is the only place where `step` is unfolded; the
invariants below go by the cases of `Move`. -/
theorem of_step {a : LogAction} (h : s.step loc a = some s') :
    ∃ c c' u, s.threads[a.thread]? = some c ∧ s.ended = false ∧ Move loc s a.thread c c' u ∧
      s' = { u with threads := s.threads.set a.thread c' } := by
  unfold step at h
  split at h
  -- the process has ended
  · cases h
  next hended =>
  split at h
  -- there is no such thread
  · cases h
  next c hc =>
  refine ⟨c, ?_⟩
  obtain ⟨pc, todo⟩ := c
  have hended : s.ended = false := Bool.eq_false_iff.mpr hended
  unfold next goto at h
  -- one case for each place of the thread, in the order of `next`
  cases pc with
  | idle =>
    cases todo with
    | nil => cases h
    | cons call todo =>
      -- the first call decides where the thread goes
      cases call with
      | writeA buffer => exact ⟨_, _, hc, hended, .writeA, (Option.some.inj h).symm⟩
      | xwriteA text => exact ⟨_, _, hc, hended, .xwriteA, (Option.some.inj h).symm⟩
  | formatLock text =>
    simp only [] at h
    split at h
    · next hfree => exact ⟨_, _, hc, hended, .formatLock hfree, (Option.some.inj h).symm⟩
    -- the other thread is inside `xwriteA`
    · cases h
  | format text =>
    simp only [] at h
    split at h
    -- the text fits into the buffer
    · next hfits => exact ⟨_, _, hc, hended, .format hfits, (Option.some.inj h).symm⟩
    -- it does not, which ends the process
    · next hlong =>
      refine ⟨_, _, hc, hended, .tooLong hlong, (Option.some.inj h).symm.trans ?_⟩
      rw [set_self hc]
  | copy text => exact ⟨_, _, hc, hended, .copy, (Option.some.inj h).symm⟩
  | write nested buffer =>
    simp only [] at h
    split at h
    · next husefull => exact ⟨_, _, hc, hended, .write husefull, (Option.some.inj h).symm⟩
    -- the log was not initialised
    · next husefull =>
      exact ⟨_, _, hc, hended, .useless (Bool.eq_false_iff.mpr husefull),
        (Option.some.inj h).symm⟩
  | writeLock nested buffer =>
    simp only [] at h
    split at h
    · next hfree => exact ⟨_, _, hc, hended, .writeLock hfree, (Option.some.inj h).symm⟩
    -- another thread writes its line
    · cases h
  | header nested buffer => exact ⟨_, _, hc, hended, .header, (Option.some.inj h).symm⟩
  | body nested head buffer => exact ⟨_, _, hc, hended, .body, (Option.some.inj h).symm⟩
  | endl nested head buffer => exact ⟨_, _, hc, hended, .endl, (Option.some.inj h).symm⟩
  | writeUnlock nested => exact ⟨_, _, hc, hended, .writeUnlock, (Option.some.inj h).symm⟩
  | formatUnlock => exact ⟨_, _, hc, hended, .formatUnlock, (Option.some.inj h).symm⟩

end LogState

/-! ### The places of a thread -/

namespace LogThread

/-- The thread holds `m_formatWriteMutex`. -/
def inFormat (c : LogThread) : Bool :=
  match c.pc with
  | .format _ | .copy _ | .formatUnlock => true
  | .write nested _ | .writeLock nested _ | .header nested _ | .body nested _ _
  | .endl nested _ _ | .writeUnlock nested => nested
  | _ => false

/-- The thread holds `m_writeMutex`. -/
def inWrite (c : LogThread) : Bool :=
  match c.pc with
  | .header _ _ | .body _ _ _ | .endl _ _ _ | .writeUnlock _ => true
  | _ => false

/-- What the thread has written of its line. -/
def written (c : LogThread) : Text :=
  match c.pc with
  | .body _ head _ => head
  | .endl _ head buffer => head ++ buffer
  | _ => []

/-- The time at the beginning of the line. -/
def head (c : LogThread) : Option Text :=
  match c.pc with
  | .body _ head _ | .endl _ head _ => some head
  | _ => none

/-- The text of the line that the call has still to write. -/
def current (page : CodePage) (c : LogThread) : List Text :=
  match c.pc with
  | .formatLock text | .format text | .copy text => [charToWChar page (cString text)]
  | .write _ buffer | .writeLock _ buffer | .header _ buffer | .body _ _ buffer
  | .endl _ _ buffer => [buffer]
  | _ => []

end LogThread

/-- The texts of the lines that the thread has still to write. -/
def LogThread.pending (page : CodePage) (c : LogThread) : List Text :=
  c.current page ++ c.todo.map (LogCall.text page)

/-- The stream converts the lines that the thread has still to write. -/
def LogThread.Writable (loc : LogLocale) (c : LogThread) : Prop :=
  ∀ text ∈ c.pending loc.page, ∀ ch ∈ text, loc.convertible ch = true

/-- The line in the file. -/
def LogLine.whole (l : LogLine) : Text := l.header ++ l.buffer ++ ['\n']

/-- Outside of the mutex a thread has written nothing of its next line. -/
theorem written_of_outside {c : LogThread} (h : c.inWrite = false) : c.written = [] := by
  obtain ⟨pc, todo⟩ := c
  cases pc with
  | body nested head buffer => cases h
  | endl nested head buffer => cases h
  | _ => rfl

namespace LogState

/-- The texts of the lines of a thread. -/
def linesOf (s : LogState) (i : ℕ) : List Text :=
  (s.lines.filter fun l => l.thread == i).map LogLine.buffer

/-- The whole lines behind what the file began with. -/
def whole (file : Text) (s : LogState) : Text := file ++ (s.lines.map LogLine.whole).flatten

variable {loc : LogLocale} {s s' : LogState} {i : ℕ} {c c' : LogThread} {u : LogState}
variable {calls : List (List LogCall)}

/-! ### What a move does to each part of the state -/

/-- What a move does to `m_formatWriteMutex`: nothing, or the thread takes it, or gives it back. -/
theorem Move.format_change (h : Move loc s i c c' u) :
    Guards.Change LogThread.inFormat i c c' s.formatMutex u.formatMutex := by
  cases h with
  | formatLock hfree => exact .enter hfree rfl
  | formatUnlock => exact .leave rfl rfl
  | @useless nested buffer todo husefull =>
    refine .stay ?_
    cases nested <;> rfl
  | @writeUnlock nested todo =>
    refine .stay ?_
    cases nested <;> rfl
  | _ => exact .stay rfl

/-- And to `m_writeMutex`. -/
theorem Move.write_change (h : Move loc s i c c' u) :
    Guards.Change LogThread.inWrite i c c' s.writeMutex u.writeMutex := by
  cases h with
  | writeLock hfree => exact .enter hfree rfl
  | @writeUnlock nested todo =>
    refine .leave rfl ?_
    cases nested <;> rfl
  | @useless nested buffer todo husefull =>
    refine .stay ?_
    cases nested <;> rfl
  | _ => exact .stay rfl

/-- Only the thread that holds the mutex writes to the file. -/
theorem Move.file_of_outside (h : Move loc s i c c' u) (hc : c.inWrite = false) :
    u.file = s.file ∧ u.lines = s.lines ∧ c'.written = [] := by
  cases h with
  | header => cases hc
  | body => cases hc
  | endl => cases hc
  | @writeUnlock nested todo => cases hc
  | @useless nested buffer todo husefull => cases nested <;> exact ⟨rfl, rfl, rfl⟩
  | _ => exact ⟨rfl, rfl, rfl⟩

/-- It writes the next part of its line, and with the last part the line is whole. The file is
always the whole lines with the written part of one line behind them. -/
theorem Move.file_of_inside (h : Move loc s i c c' u) (hwrites : loc.Writes calls)
    (hgood : s.good = true) (htext : c.Writable loc) (hc : c.inWrite = true) {file : Text}
    (hfile : s.file = s.whole file ++ c.written) : u.file = u.whole file ++ c'.written := by
  cases h with
  -- the stream takes the header
  | @header nested buffer todo systm =>
    rw [put_file hgood (hwrites.time systm), hfile, show LogThread.written _ = [] from rfl,
      List.append_nil]
    rfl
  -- then the line itself
  | @body nested head buffer todo =>
    rw [put_file hgood (htext buffer List.mem_cons_self), hfile, List.append_assoc]
    rfl
  -- the line is complete and counts as one from here on
  | @endl nested head buffer todo =>
    have hput := put_file (s := s) hgood (List.forall_mem_singleton.mpr hwrites.endl)
    show (s.put loc ['\n']).file =
      file ++ ((s.lines ++ [LogLine.mk i head buffer]).map LogLine.whole).flatten ++ []
    rw [hput, hfile, List.map_append, List.flatten_append, whole]
    simp only [LogThread.written, LogLine.whole, List.map_cons, List.map_nil, List.flatten_cons,
      List.flatten_nil, List.append_nil, List.append_assoc]
  -- giving the mutex back writes nothing
  | @writeUnlock nested todo =>
    show s.file = s.whole file ++ _
    rw [hfile]
    cases nested <;> rfl
  | _ => cases hc

/-- The stream stays good. -/
theorem Move.good (h : Move loc s i c c' u) (hwrites : loc.Writes calls) (hgood : s.good = true)
    (htext : c.Writable loc) : u.good = true := by
  cases h with
  | @header nested buffer todo systm => exact put_good hgood (hwrites.time systm)
  | @body nested head buffer todo => exact put_good hgood (htext buffer List.mem_cons_self)
  | endl => exact put_good hgood (List.forall_mem_singleton.mpr hwrites.endl)
  | _ => exact hgood

/-- The buffer changes only when a thread formats its text. -/
theorem Move.buffer_change (h : Move loc s i c c' u) :
    (u.buffer = s.buffer ∧ ∀ text, c'.pc ≠ .copy text) ∨
      (c.inFormat = true ∧ ∃ text, c'.pc = .copy text ∧ u.buffer = formatInto text s.buffer) := by
  cases h with
  | format hfits => exact .inr ⟨rfl, _, rfl, rfl⟩
  | @useless nested buffer todo husefull => cases nested <;> exact .inl ⟨rfl, fun _ h => by cases h⟩
  | @writeUnlock nested todo => cases nested <;> exact .inl ⟨rfl, fun _ h => by cases h⟩
  | _ => exact .inl ⟨rfl, fun _ h => by cases h⟩

/-- The time of a line is asked for when the line begins. -/
theorem Move.head_change (h : Move loc s i c c' u) {head : Text} (hhead : c'.head = some head) :
    c.head = some head ∨ ∃ systm, head = generateTimeHead systm := by
  cases h with
  | @header nested buffer todo systm => exact .inr ⟨systm, (Option.some.inj hhead).symm⟩
  | body => exact .inl hhead
  | @useless nested buffer todo husefull => cases nested <;> cases hhead
  | @writeUnlock nested todo => cases nested <;> cases hhead
  | _ => cases hhead

/-- A line is finished by the thread that has asked for its time. -/
theorem Move.lines_change (h : Move loc s i c c' u) :
    u.lines = s.lines ∨
      ∃ head buffer, c.head = some head ∧ u.lines = s.lines ++ [⟨i, head, buffer⟩] := by
  cases h with
  | @endl nested head buffer todo => exact .inr ⟨head, buffer, rfl, rfl⟩
  | _ => exact .inl rfl

/-- A line that is finished is no longer pending. So for each thread its finished lines and its
pending ones together are the same in every state, and no move of another thread touches them. -/
theorem Move.history (h : Move loc s i c c' u) (husefull : s.usefull = true)
    (hbuffer : ∀ text, c.pc = .copy text → cString s.buffer = cString text) :
    u.linesOf i ++ c'.pending loc.page = s.linesOf i ++ c.pending loc.page ∧
      ∀ j, j ≠ i → u.linesOf j = s.linesOf j := by
  cases h with
  -- the text in the buffer is still the one that was copied
  | @copy text todo =>
    refine ⟨?_, fun _ _ => rfl⟩
    show _ ++ (charToWChar loc.page (cString s.buffer) :: _) =
      _ ++ (charToWChar loc.page (cString text) :: _)
    rw [hbuffer text rfl]
  -- the log is initialised, so no call is dropped
  | useless huseless =>
    rw [husefull] at huseless
    cases huseless
  -- one call of this thread is done, with its line at the end of its lines
  | @endl nested head buffer todo =>
    refine ⟨?_, ?_⟩
    · show ((s.lines ++ [LogLine.mk i head buffer]).filter _).map _ ++ ([] ++ _) = _
      rw [List.filter_append, List.map_append, List.append_assoc]
      simp [linesOf, LogThread.pending, LogThread.current]
    -- the lines of the other threads are the same
    · intro j hj
      have hne : (i == j) = false := beq_eq_false_iff_ne.mpr (Ne.symm hj)
      show ((s.lines ++ [LogLine.mk i head buffer]).filter fun l => l.thread == j).map _ = _
      rw [List.filter_append, List.filter_singleton]
      simp only [hne, cond_false, List.append_nil]
      rfl
  | @writeUnlock nested todo => cases nested <;> exact ⟨rfl, fun _ _ => rfl⟩
  | _ => exact ⟨rfl, fun _ _ => rfl⟩

/-! ### The invariant -/

variable {file : Text}

/-- The log between two steps. -/
structure LogInv (loc : LogLocale) (file : Text) (calls : List (List LogCall)) (s : LogState) :
    Prop where
  usefull : s.usefull = true
  good : s.good = true
  format : Guards LogThread.inFormat s.threads s.formatMutex
  write : Guards LogThread.inWrite s.threads s.writeMutex
  /-- The buffer holds the text of the thread that has formatted it. -/
  buffer : ∀ (j : ℕ) (d : LogThread) (text : Text), s.threads[j]? = some d → d.pc = .copy text →
    cString s.buffer = cString text
  /-- Between the lines. -/
  free : s.writeMutex = none → s.file = s.whole file
  /-- Within a line. -/
  held : ∀ (j : ℕ) (d : LogThread), s.threads[j]? = some d → d.inWrite = true →
    s.file = s.whole file ++ d.written
  length : s.threads.length = calls.length
  /-- A line that has begun, and each line, begins with a time. -/
  head : ∀ (j : ℕ) (d : LogThread) (head : Text), s.threads[j]? = some d → d.head = some head →
    ∃ systm, head = generateTimeHead systm
  lines : ∀ l ∈ s.lines, l.thread < calls.length ∧ ∃ systm, l.header = generateTimeHead systm
  /-- Each line of a thread is written or pending. -/
  history : ∀ (j : ℕ) (d : LogThread), s.threads[j]? = some d → ∃ todo, calls[j]? = some todo ∧
    s.linesOf j ++ d.pending loc.page = todo.map (LogCall.text loc.page)

namespace LogInv

/-- Behind `init` no thread has begun a call, so there is no owner of a mutex and no line, and all
that a thread has to write is still pending. -/
theorem start (loc : LogLocale) (file buffer : Text) (calls : List (List LogCall)) :
    LogInv loc file calls (start true file buffer calls) := by
  -- every thread starts with its own calls to make
  have hthread : ∀ (j : ℕ) (d : LogThread),
      (LogState.start true file buffer calls).threads[j]? = some d →
      ∃ todo, calls[j]? = some todo ∧ d = { todo } := by
    intro j d hd
    rw [LogState.start, List.getElem?_map, Option.map_eq_some_iff] at hd
    obtain ⟨todo, htodo, rfl⟩ := hd
    exact ⟨todo, htodo, rfl⟩
  -- and outside of both sections
  have hidle : ∀ d ∈ (LogState.start true file buffer calls).threads, d.pc = .idle := by
    intro d hd
    obtain ⟨j, hj⟩ := List.mem_iff_getElem?.mp hd
    obtain ⟨todo, -, rfl⟩ := hthread j d hj
    rfl
  refine ⟨rfl, rfl, ?format, ?write, ?copied, ?free, ?held, List.length_map _, ?timed, ?lines,
    ?history⟩
  case format =>
    refine Guards.of_forall fun d hd => ?_
    rw [LogThread.inFormat, hidle d hd]
  case write =>
    refine Guards.of_forall fun d hd => ?_
    rw [LogThread.inWrite, hidle d hd]
  case copied =>
    intro j d text hd hpc
    rw [hidle d (List.mem_of_getElem? hd)] at hpc
    cases hpc
  -- nothing has been written to the file yet
  case free =>
    intro _
    exact (List.append_nil file).symm
  case held =>
    intro j d hd hinside
    rw [LogThread.inWrite, hidle d (List.mem_of_getElem? hd)] at hinside
    cases hinside
  case timed =>
    intro j d head hd hhead
    rw [LogThread.head, hidle d (List.mem_of_getElem? hd)] at hhead
    cases hhead
  case lines =>
    intro l hl
    cases hl
  case history =>
    intro j d hd
    obtain ⟨todo, htodo, rfl⟩ := hthread j d hd
    exact ⟨todo, htodo, rfl⟩

/-- What a thread has still to write is among its calls. -/
theorem writable (h : LogInv loc file calls s) (hwrites : loc.Writes calls)
    (hc : s.threads[i]? = some c) : c.Writable loc := by
  intro text htext ch hch
  obtain ⟨todo, htodo, hhistory⟩ := h.history i c hc
  have hmem : text ∈ todo.map (LogCall.text loc.page) := by
    rw [← hhistory]
    exact List.mem_append_right _ htext
  obtain ⟨call, hcall, rfl⟩ := List.mem_map.mp hmem
  exact hwrites.text todo (List.mem_of_getElem? htodo) call hcall ch hch

end LogInv

/-- Behind a move the buffer is the text of the only thread that is about to copy it. -/
theorem Move.buffer_step (h : LogInv loc file calls s) (hc : s.threads[i]? = some c)
    (hmove : Move loc s i c c' u) (j : ℕ) (d : LogThread) (text : Text)
    (hd : (s.threads.set i c')[j]? = some d) (hpc : d.pc = .copy text) :
    cString u.buffer = cString text := by
  rcases hmove.buffer_change with ⟨hbuffer, hnot⟩ | ⟨hinside, text', hpc', hbuffer⟩
  · rcases getElem?_set_cases hc hd with ⟨-, rfl⟩ | ⟨-, hd⟩
    · exact absurd hpc (hnot text)
    · rw [hbuffer]
      exact h.buffer j d text hd hpc
  · rcases getElem?_set_cases hc hd with ⟨-, rfl⟩ | ⟨hne, hd⟩
    · rw [hpc', LogPc.copy.injEq] at hpc
      rw [hbuffer, formatInto, cString_append_nul, hpc]
    · -- another thread at this place would hold the same mutex
      have hinside' : d.inFormat = true := by rw [LogThread.inFormat, hpc]
      exact absurd (h.format.eq_of_inside hc hinside hd hinside') hne

/-- Behind a move the file is whole lines and what the thread that has moved leaves of its line,
unless another thread is in its line. -/
theorem Move.file_step (h : LogInv loc file calls s) (hwrites : loc.Writes calls)
    (hc : s.threads[i]? = some c)
    (hmove : Move loc s i c c' u) (howner : ∀ j, s.writeMutex = some j → j = i) :
    u.file = u.whole file ++ c'.written := by
  cases hinside : c.inWrite with
  | true =>
    exact hmove.file_of_inside hwrites h.good (h.writable hwrites hc) hinside
      (h.held i c hc hinside)
  | false =>
    obtain ⟨hfile, hlines, hwritten⟩ := hmove.file_of_outside hinside
    have hfree : s.writeMutex = none := by
      refine Option.eq_none_iff_forall_ne_some.mpr fun j hj => ?_
      rw [howner j hj, ← h.write.inside_iff i c hc, hinside] at hj
      cases hj
    rw [hfile, h.free hfree, hwritten, List.append_nil, whole, whole, hlines]

/-- Each step keeps the invariant: one part of it for each mutex, and the rest by the lemmas about a
move. -/
theorem LogInv.step (h : LogInv loc file calls s) (hwrites : loc.Writes calls) {a : LogAction}
    (hstep : s.step loc a = some s') : LogInv loc file calls s' := by
  obtain ⟨c, c', u, hc, -, hmove, rfl⟩ := of_step hstep
  have hwrite := h.write.step hc hmove.write_change
  have hgood := hmove.good hwrites h.good (h.writable hwrites hc)
  refine ⟨?usefull, hgood, h.format.step hc hmove.format_change, hwrite, ?copied, ?free, ?held,
    ?length, ?timed, ?lines, ?history⟩
  case usefull =>
    rw [← h.usefull]
    cases hmove <;> rfl
  case copied => exact fun j d text hd hpc => Move.buffer_step (u := u) h hc hmove j d text hd hpc
  case free =>
    intro hfree
    have hfree' : ∀ j, u.writeMutex = some j → j = a.thread := by
      intro j hj
      rw [show u.writeMutex = none from hfree] at hj
      cases hj
    have hout : c'.inWrite = false := by
      obtain ⟨hi, -⟩ := List.getElem?_eq_some_iff.mp hc
      rw [Bool.eq_false_iff, ne_eq, hwrite.inside_iff _ c' (List.getElem?_set_self hi), hfree]
      exact fun h => Option.some_ne_none _ h.symm
    have hfile := hmove.file_step h hwrites hc
      (h.write.owner_of_change hc hmove.write_change hfree')
    rw [written_of_outside hout, List.append_nil] at hfile
    exact hfile
  case held =>
    intro j d hd hinside
    have howner : u.writeMutex = some j := (hwrite.inside_iff j d hd).mp hinside
    rcases getElem?_set_cases hc hd with ⟨rfl, rfl⟩ | ⟨hne, hd⟩
    · have howner' : ∀ k, u.writeMutex = some k → k = a.thread := by
        intro k hk
        rw [howner, Option.some.injEq] at hk
        exact hk.symm
      exact Move.file_step (u := u) h hwrites hc hmove
        (h.write.owner_of_change hc hmove.write_change howner')
    · -- the thread that has moved is outside
      have hout : c.inWrite = false := by
        rw [Bool.eq_false_iff]
        exact fun hin => hne (h.write.eq_of_inside hc hin hd hinside)
      obtain ⟨hfile, hlines, -⟩ := hmove.file_of_outside hout
      show u.file = file ++ (u.lines.map LogLine.whole).flatten ++ _
      rw [hfile, hlines]
      exact h.held j d hd hinside
  case length =>
    rw [← h.length]
    exact List.length_set
  case timed =>
    intro j d head hd hhead
    rcases getElem?_set_cases hc hd with ⟨rfl, rfl⟩ | ⟨-, hd⟩
    · rcases hmove.head_change hhead with hhead | htime
      · exact h.head _ c head hc hhead
      · exact htime
    · exact h.head j d head hd hhead
  case lines =>
    intro l (hl : l ∈ u.lines)
    rcases hmove.lines_change with hlines | ⟨head, buffer, hhead, hlines⟩
    · rw [hlines] at hl
      exact h.lines l hl
    · rw [hlines, List.mem_append, List.mem_singleton] at hl
      rcases hl with hl | rfl
      · exact h.lines l hl
      · obtain ⟨hi, -⟩ := List.getElem?_eq_some_iff.mp hc
        rw [h.length] at hi
        exact ⟨hi, h.head _ c head hc hhead⟩
  case history =>
    intro j d hd
    have hhistory := hmove.history h.usefull (h.buffer a.thread c · hc ·)
    rcases getElem?_set_cases hc hd with ⟨rfl, rfl⟩ | ⟨hne, hd⟩
    · obtain ⟨todo, htodo, heq⟩ := h.history _ c hc
      exact ⟨todo, htodo, hhistory.1.trans heq⟩
    · obtain ⟨todo, htodo, heq⟩ := h.history j d hd
      refine ⟨todo, htodo, ?_⟩
      rw [← heq, ← hhistory.2 j (Ne.symm hne)]
      rfl

/-- So every run keeps it. -/
theorem LogInv.run (h : LogInv loc file calls s) (hwrites : loc.Writes calls)
    {as : List LogAction} (hrun : Lib.run (LogState.step loc) s as = some s') :
    LogInv loc file calls s' :=
  run_invariant (fun _ _ _ _ h hstep => h.step hwrites hstep)
    (fun _ _ => trivial) h hrun

end LogState

/-! ### The lines of a run -/

/-- A thread inside the mutex has written a part of its next line. -/
theorem written_prefix (page : CodePage) {c : LogThread} (h : c.inWrite = true) :
    c.written = [] ∨ ∃ head buffer, c.head = some head ∧ c.current page = [buffer] ∧
      c.written <+: head ++ buffer := by
  obtain ⟨pc, todo⟩ := c
  cases pc with
  | body nested head buffer => exact .inr ⟨head, buffer, rfl, rfl, List.prefix_append _ _⟩
  | endl nested head buffer => exact .inr ⟨head, buffer, rfl, rfl, List.prefix_refl _⟩
  | header nested buffer => exact .inl rfl
  | writeUnlock nested => exact .inl rfl
  | _ => cases h

/-- The first thread has written a part of its line, and the second one is in `xwriteA`. -/
def inLine : List LogAction := [1, 0, 0, 1, 1, 0, 1, 1, 0, 0].map fun i => ⟨i, ⟨9, 5, 7⟩⟩

/-- The default locale has all characters of these calls. -/
theorem writes_two :
    LogLocale.Writes {} [[.writeA "ab".toList], [.xwriteA "c".toList]] where
  ascii ch h := decide_eq_true (Nat.lt_of_lt_of_le h (by decide))
  text := by
    have hall : ∀ todo ∈ [[LogCall.writeA "ab".toList], [.xwriteA "c".toList]], ∀ call ∈ todo,
        (call.text latin1).all (LogLocale.convertible {}) = true := by decide
    exact fun todo htodo call hcall => List.all_eq_true.mp (hall todo htodo call hcall)

end OnlineJudger.CLog
