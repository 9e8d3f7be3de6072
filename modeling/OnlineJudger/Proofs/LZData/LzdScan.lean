import OnlineJudger.Proofs.LZData.LzdLoop
import OnlineJudger.Lib.Bracket

/-!
# `OnlineJudger.Proofs.LZData.LzdScan`: a text under the eyes of the lzd parser

`Mode` says how the parser reads a character: as a part of a statement, of a comment or of a
value, or not at all, because a malformed statement stands in front of it on the line. In a
statement two names may be pending (`Pending`), and they decide which statements are malformed.
No tree and no line numbers are needed for this, so `scan` goes through a text on its own.

* `scan_add`: a section is read up to its closing brace, and the outer section goes on behind it.
* `passes_skip`, `passes_comment`, `passes_value`, `passes_blanks`: where the reading goes on behind
  the parts that the parser takes in one step.
-/

set_option autoImplicit false

namespace OnlineJudger

open Lib

namespace CParser

/-! ### The pending names -/

/-- The names that are pending in a section. -/
structure Pending where
  variable' : Text := []
  curVariable : Text := []
  /-- `variable'` was read on this line. -/
  sameLine : Bool := true
  /-- `variable'` was kept over the end of a line, and it was not the last on that line. -/
  carried : Bool := false
  deriving DecidableEq, Repr

namespace Pending

/-- No name is pending. -/
def Unnamed (P : Pending) : Prop := P.variable' = [] ∧ P.curVariable = []

/-- Two names on one line. -/
def Two (P : Pending) : Prop :=
  P.variable' ≠ [] ∧ P.curVariable ≠ [] ∧ P.sameLine = true

/-- A section or an assignment is malformed here. -/
def Malformed (P : Pending) : Prop := P.Unnamed ∨ P.Two

/-- Both names are compared with the empty one. -/
instance (P : Pending) : Decidable P.Unnamed := by
  unfold Unnamed
  infer_instance

/-- Two comparisons and a truth value. -/
instance (P : Pending) : Decidable P.Two := by
  unfold Two
  infer_instance

/-- `scan` is computed, and it asks for this at each statement. -/
instance (P : Pending) : Decidable P.Malformed := by
  unfold Malformed
  infer_instance

/-- The name of a section or an assignment that is not malformed. -/
def name (P : Pending) : Text :=
  trimString (if P.curVariable = [] then P.variable' else P.curVariable)

/-- Behind a newline. `last` says that no comment stands in front of it. -/
def newline (P : Pending) (last : Bool) : Pending :=
  if P.Malformed then {}
  else
    { variable' := P.name
      sameLine := false
      carried := P.curVariable = [] ∧ (last = true ∨ P.carried = true) }

/-- Behind a blank. -/
def blank (P : Pending) : Pending :=
  if P.curVariable = [] then P else { variable' := P.curVariable }

/-- Behind a character of a name. -/
def add (P : Pending) (ch : Char) : Pending := { P with curVariable := P.curVariable ++ [ch] }

end Pending

/-- The characters that names are made of. -/
def isNameChar (ch : Char) : Bool :=
  !(ch == '{' || ch == '}' || ch == '=' || ch == '\n' || ch == ' ' || ch == '\t' || ch == '#' ||
    ch == ';')

/-- A character of a name is none of those with a case of their own. -/
theorem ne_of_isNameChar {ch : Char} (h : isNameChar ch = true) :
    ch ≠ '{' ∧ ch ≠ '}' ∧ ch ≠ '=' ∧ ch ≠ '\n' ∧ ch ≠ ' ' ∧ ch ≠ '\t' ∧ ch ≠ '#' ∧ ch ≠ ';' := by
  simp only [isNameChar, Bool.not_eq_true', Bool.or_eq_false_iff, beq_eq_false_iff_ne] at h
  obtain ⟨⟨⟨⟨⟨⟨⟨h1, h2⟩, h3⟩, h4⟩, h5⟩, h6⟩, h7⟩, h8⟩ := h
  exact ⟨h1, h2, h3, h4, h5, h6, h7, h8⟩

/-- The characters that a statement is made of. -/
theorem char_cases (ch : Char) :
    ch = '{' ∨ ch = '}' ∨ ch = '=' ∨ ch = '\n' ∨ (ch = ' ' ∨ ch = '\t') ∨ ch = '#' ∨ ch = ';' ∨
      isNameChar ch = true := by
  simp only [isNameChar, Bool.not_eq_true', Bool.or_eq_false_iff, beq_eq_false_iff_ne]
  tauto

/-! ### The modes -/

/-- How the next character is read. -/
inductive Mode where
  | names (P : Pending)
  | comment (P : Pending)
  /-- `escape` says that a backslash stands in front of the character. -/
  | value (escape : Bool)
  /-- Behind a malformed statement. -/
  | skip
  deriving DecidableEq, Repr

/-- What a character of a statement leads to. -/
def Pending.next (P : Pending) (last : Bool) (ch : Char) : Mode :=
  if ch = '{' then if P.Malformed then .skip else .names {}
  else if ch = '}' then .names {}
  else if ch = '=' then if P.Malformed then .skip else .value false
  else if ch = '\n' then .names (P.newline last)
  else if ch = ' ' ∨ ch = '\t' then if P.Two then .skip else .names P.blank
  else if ch = '#' then .comment P
  else if ch = ';' then .names P
  else .names (P.add ch)

/-- A blank behind two names on one line is an error. -/
theorem Pending.next_blank (P : Pending) {ch : Char} (h : ch = ' ' ∨ ch = '\t') (last : Bool) :
    P.next last ch = if P.Two then .skip else .names P.blank := by
  rcases h with rfl | rfl
  · rfl
  · rfl

/-- A character of a name is put to it. -/
theorem Pending.next_other (P : Pending) {ch : Char} (h : isNameChar ch = true) (last : Bool) :
    P.next last ch = .names (P.add ch) := by
  have hne := ne_of_isNameChar h
  simp only [Pending.next, hne, or_self, if_false]

/-- Behind a blank no name has begun. -/
theorem Pending.blank_curVariable (P : Pending) : P.blank.curVariable = [] := by
  rw [Pending.blank]
  split_ifs with h
  · exact h
  · rfl

/-- The brace that a character of a statement is. A malformed statement opens no section. -/
def Pending.brace (P : Pending) (ch : Char) : Bracket Unit :=
  if ch = '{' then if P.Malformed then .atom else .opening ()
  else if ch = '}' then .closing ()
  else .atom

/-- A section or an assignment that begins with this character. -/
def Pending.head (P : Pending) (ch : Char) : List Pending :=
  if ch = '{' ∨ ch = '=' then [P] else []

namespace Mode

/-- The names that are pending if the character is read as a part of a statement. -/
def read : Mode → Char → Option Pending
  | .names P, _ => some P
  | .comment P, ch => if ch = '\n' then some P else none
  | .value escape, ch =>
    if isValueEnd ch = true ∧ ¬ (escape = true ∧ isEscaped ch = true) then some {} else none
  | .skip, ch => if ch = '\n' ∨ ch = '}' then some {} else none

/-- The mode behind a character that is not read as a part of a statement. -/
def stay : Mode → Char → Mode
  | .value escape, ch => .value (!escape && ch == '\\')
  | m, _ => m

/-- The parser reads a statement. -/
def isNames : Mode → Bool
  | .names _ => true
  | _ => false

/-- The mode behind a character. -/
def after (m : Mode) (ch : Char) : Mode :=
  match m.read ch with
  | none => m.stay ch
  | some P => P.next m.isNames ch

/-- The brace that a character is, if it is read as a part of a statement. -/
def brace (m : Mode) (ch : Char) : Bracket Unit :=
  match m.read ch with
  | none => .atom
  | some P => P.brace ch

/-- The names at the character, if it begins a section or an assignment. -/
def head (m : Mode) (ch : Char) : List Pending :=
  match m.read ch with
  | none => []
  | some P => P.head ch

end Mode

/-- In a statement each character counts. -/
theorem Mode.after_names (P : Pending) (ch : Char) : (Mode.names P).after ch = P.next true ch := rfl

/-- A blank is no brace. -/
theorem Pending.brace_blank (P : Pending) {ch : Char} (h : ch = ' ' ∨ ch = '\t') :
    (Mode.names P).brace ch = .atom := by
  rcases h with rfl | rfl <;> rfl

/-- Nor is a character of a name. -/
theorem Pending.brace_other (P : Pending) {ch : Char} (h : isNameChar ch = true) :
    (Mode.names P).brace ch = .atom := by
  have hne := ne_of_isNameChar h
  simp only [Mode.brace, Mode.read, Pending.brace, hne, if_false]

/-- The braces of a text that the parser takes into account. The other characters are atoms. -/
def kept : Mode → Text → List (Bracket Unit)
  | _, [] => []
  | m, ch :: t => m.brace ch :: kept (m.after ch) t

/-- A text in two parts. The second one is read in the mode that the first one leads to. -/
theorem kept_append (m : Mode) (pre post : Text) :
    kept m (pre ++ post) = kept m pre ++ kept (pre.foldl Mode.after m) post := by
  induction pre generalizing m with
  | nil => rfl
  | cons ch pre ih => rw [List.cons_append, kept, kept, ih, List.foldl_cons, List.cons_append]

/-- Read a text up to the brace that closes `depth` sections and the current one: the names at
the sections and assignments, and the text behind that brace. -/
def scan : Nat → Mode → Text → List Pending × Text
  | _, _, [] => ([], [])
  | depth, m, ch :: t =>
    match m.brace ch, depth with
    | .closing _, 0 => ([], t)
    | .closing _, depth + 1 => scan depth (m.after ch) t
    | .opening _, depth =>
      (m.head ch ++ (scan (depth + 1) (m.after ch) t).1, (scan (depth + 1) (m.after ch) t).2)
    | .atom, depth =>
      (m.head ch ++ (scan depth (m.after ch) t).1, (scan depth (m.after ch) t).2)

/-- In an empty text no brace is found. -/
@[simp] theorem scan_nil (depth : Nat) (m : Mode) : scan depth m [] = ([], []) := by
  rw [scan]

/-! ### What the parser skips in one step -/

/-- The text at which `skipToEnd` stops. -/
def endOfLine (t : Text) : Text := t.dropWhile fun ch => !(ch == '\n' || ch == '}')

/-- The text at which `skipSpace` stops. -/
def behindBlanks (t : Text) : Text := t.dropWhile fun ch => ch == ' ' || ch == '\t'

/-- The text at which `skipToReturn` stops. -/
def endOfComment (t : Text) : Text := t.dropWhile fun ch => !(ch == '\n')

/-- Skipping a line makes no text longer. -/
theorem length_endOfLine_le (t : Text) : (endOfLine t).length ≤ t.length :=
  List.length_dropWhile_le _ t

/-- Nor does skipping blanks. -/
theorem length_behindBlanks_le (t : Text) : (behindBlanks t).length ≤ t.length :=
  List.length_dropWhile_le _ t

/-- A comment in the last line. -/
theorem endOfComment_last {t : Text} (h : '\n' ∉ t) : endOfComment t = [] := by
  rw [endOfComment, List.dropWhile_eq_nil_iff]
  intro ch hch
  rw [beq_eq_false_iff_ne.mpr (ne_of_mem_of_not_mem hch h)]
  rfl

/-- A comment, and the end of its line. -/
theorem endOfComment_append {w : Text} (hw : '\n' ∉ w) (t : Text) :
    endOfComment (w ++ '\n' :: t) = '\n' :: t := by
  refine dropWhile_append_of_head (p := fun ch => !(ch == '\n')) ?_ ?_
  · intro ch hch
    rw [beq_eq_false_iff_ne.mpr (ne_of_mem_of_not_mem hch hw)]
    rfl
  · intro ch hch
    rw [List.head?_cons, Option.mem_some_iff] at hch
    subst hch
    rfl

/-! ### Reading on -/

/-- A character that is no brace. -/
theorem scan_atom {m : Mode} {ch : Char} (h : m.brace ch = .atom) (depth : Nat) (t : Text) :
    scan depth m (ch :: t) =
      (m.head ch ++ (scan depth (m.after ch) t).1, (scan depth (m.after ch) t).2) := by
  simp only [scan, h]

/-- A section is opened, so one more brace has to close. -/
theorem scan_opening {m : Mode} {ch : Char} {a : Unit} (h : m.brace ch = .opening a)
    (depth : Nat) (t : Text) :
    scan depth m (ch :: t) =
      (m.head ch ++ (scan (depth + 1) (m.after ch) t).1,
        (scan (depth + 1) (m.after ch) t).2) := by
  simp only [scan, h]

/-- The brace that closes the current section ends the scan. -/
theorem scan_closing_zero {m : Mode} {ch : Char} {a : Unit} (h : m.brace ch = .closing a)
    (t : Text) : scan 0 m (ch :: t) = ([], t) := by
  simp only [scan, h]

/-- The brace of an inner section. -/
theorem scan_closing_succ {m : Mode} {ch : Char} {a : Unit} (h : m.brace ch = .closing a)
    (depth : Nat) (t : Text) : scan (depth + 1) m (ch :: t) = scan depth (m.after ch) t := by
  simp only [scan, h]

/-- The text that is left is a suffix. By induction on the text: a closing brace at depth zero stops
the scan, and any other character is passed. -/
theorem scan_suffix (depth : Nat) (m : Mode) (t : Text) : (scan depth m t).2 <:+ t := by
  induction t generalizing depth m with
  | nil =>
    rw [scan_nil]
  | cons ch t ih =>
    have hcons := List.suffix_cons ch t
    -- what the scan hands back starts behind the character in every case
    cases hb : m.brace ch with
    | atom =>
      rw [scan_atom hb]
      exact (ih _ _).trans hcons
    | opening a =>
      rw [scan_opening hb]
      exact (ih _ _).trans hcons
    | closing a =>
      cases depth with
      | zero =>
        -- the brace that ends the scan
        rw [scan_closing_zero hb]
        exact hcons
      | succ depth =>
        rw [scan_closing_succ hb]
        exact (ih _ _).trans hcons

/-- A character that is read in the same way in two modes. -/
theorem scan_congr {m m' : Mode} {ch : Char} (hbrace : m.brace ch = m'.brace ch)
    (hhead : m.head ch = m'.head ch) (hafter : m.after ch = m'.after ch) (depth : Nat)
    (t : Text) : scan depth m (ch :: t) = scan depth m' (ch :: t) := by
  cases hb : m'.brace ch with
  | atom => rw [scan_atom hb, scan_atom (hbrace.trans hb), hhead, hafter]
  | opening a => rw [scan_opening hb, scan_opening (hbrace.trans hb), hhead, hafter]
  | closing a =>
    cases depth with
    | zero => rw [scan_closing_zero hb, scan_closing_zero (hbrace.trans hb)]
    | succ depth => rw [scan_closing_succ hb, scan_closing_succ (hbrace.trans hb), hafter]

/-- A section begins. -/
theorem scan_brace {P : Pending} (h : ¬ P.Malformed) (depth : Nat) (t : Text) :
    scan depth (.names P) ('{' :: t) =
      (P :: (scan (depth + 1) (.names {}) t).1, (scan (depth + 1) (.names {}) t).2) := by
  have hbrace : (Mode.names P).brace '{' = .opening () := if_neg h
  have hafter : (Mode.names P).after '{' = .names {} := if_neg h
  rw [scan_opening hbrace, hafter]
  rfl

/-- A section without a name, or with two. -/
theorem scan_brace_malformed {P : Pending} (h : P.Malformed) (depth : Nat) (t : Text) :
    scan depth (.names P) ('{' :: t) = (P :: (scan depth .skip t).1, (scan depth .skip t).2) := by
  have hbrace : (Mode.names P).brace '{' = .atom := if_pos h
  have hafter : (Mode.names P).after '{' = .skip := if_pos h
  rw [scan_atom hbrace, hafter]
  rfl

/-- A value begins. -/
theorem scan_equal {P : Pending} (h : ¬ P.Malformed) (depth : Nat) (t : Text) :
    scan depth (.names P) ('=' :: t) =
      (P :: (scan depth (.value false) t).1, (scan depth (.value false) t).2) := by
  have hafter : (Mode.names P).after '=' = .value false := if_neg h
  rw [scan_atom (m := .names P) rfl, hafter]
  rfl

/-- An assignment without a name, or with two. -/
theorem scan_equal_malformed {P : Pending} (h : P.Malformed) (depth : Nat) (t : Text) :
    scan depth (.names P) ('=' :: t) = (P :: (scan depth .skip t).1, (scan depth .skip t).2) := by
  have hafter : (Mode.names P).after '=' = .skip := if_pos h
  rw [scan_atom (m := .names P) rfl, hafter]
  rfl

/-- The names at a section or an assignment are recorded. -/
theorem mem_scan {ch : Char} (h : ch = '{' ∨ ch = '=') (depth : Nat) (P : Pending) (t : Text) :
    P ∈ (scan depth (.names P) (ch :: t)).1 := by
  by_cases hmal : P.Malformed
  · rcases h with rfl | rfl
    · rw [scan_brace_malformed hmal]
      exact List.mem_cons_self ..
    · rw [scan_equal_malformed hmal]
      exact List.mem_cons_self ..
  · rcases h with rfl | rfl
    · rw [scan_brace hmal]
      exact List.mem_cons_self ..
    · rw [scan_equal hmal]
      exact List.mem_cons_self ..

/-- Behind a closing brace no name is pending. -/
theorem Mode.after_of_closing {m : Mode} {ch : Char} {a : Unit} (h : m.brace ch = .closing a) :
    m.after ch = .names {} := by
  rw [Mode.brace] at h
  rw [Mode.after]
  cases hread : m.read ch with
  | none =>
    rw [hread] at h
    simp only [reduceCtorEq] at h
  | some P =>
    rw [hread] at h
    by_cases hclose : ch = '}'
    · subst hclose
      rfl
    · simp only [Pending.brace, if_neg hclose] at h
      split_ifs at h

/-- A section is read up to its closing brace, and then the outer sections. By induction on the
text: the scan of a deeper place is the scan of the section and that of the rest. -/
theorem scan_add (e d : Nat) (m : Mode) (t : Text) :
    scan (e + 1 + d) m t =
      ((scan e m t).1 ++ (scan d (.names {}) (scan e m t).2).1,
        (scan d (.names {}) (scan e m t).2).2) := by
  induction t generalizing e m with
  | nil => simp only [scan_nil, List.append_nil]
  | cons ch t ih =>
    -- the depth on the left is the sum, so each character moves both scans alike
    cases hb : m.brace ch with
    | atom => simp only [scan_atom hb, ih, List.append_assoc]
    | opening a =>
      have hdepth : e + 1 + d + 1 = e + 1 + 1 + d := by omega
      rw [scan_opening hb, scan_opening hb, hdepth, ih]
      simp only [List.append_assoc]
    | closing a =>
      cases e with
      -- the inner scan ends here, and the outer one goes on with a new name
      | zero =>
        have hdepth : 0 + 1 + d = d + 1 := by omega
        rw [hdepth, scan_closing_succ hb, scan_closing_zero hb, Mode.after_of_closing hb,
          List.nil_append]
      | succ e =>
        have hdepth : e + 1 + 1 + d = e + 1 + d + 1 := by omega
        rw [hdepth, scan_closing_succ hb, scan_closing_succ hb, ih]

/-! ### What is not read -/

/-- `Passes m P t t'`: from the mode `m` the characters of `t` in front of `t'` begin nothing and
are no braces, and `t'` is read as behind the names `P`. -/
inductive Passes : Mode → Pending → Text → Text → Prop
  | done (m : Mode) (P : Pending) : Passes m P [] []
  | stop {m : Mode} {P : Pending} {ch : Char} (t : Text) :
      m.brace ch = (Mode.names P).brace ch → m.head ch = (Mode.names P).head ch →
        m.after ch = (Mode.names P).after ch → Passes m P (ch :: t) (ch :: t)
  | take {m : Mode} {P : Pending} {ch : Char} {t t' : Text} : m.brace ch = .atom → m.head ch = [] →
      Passes (m.after ch) P t t' → Passes m P (ch :: t) t'

/-- The scan goes on behind what is not read. -/
theorem Passes.scan_eq {m : Mode} {P : Pending} {t t' : Text} (h : Passes m P t t') (depth : Nat) :
    scan depth m t = scan depth (.names P) t' := by
  induction h with
  | done => rw [scan_nil, scan_nil]
  | stop t hbrace hhead hafter => exact scan_congr hbrace hhead hafter depth t
  | take hbrace hhead _ ih =>
    rw [scan_atom hbrace, hhead, ← ih]
    rfl

/-- No brace is passed. -/
theorem Passes.walk_eq {m : Mode} {P : Pending} {t t' : Text} (h : Passes m P t t')
    (stack : List Unit) : walk id stack (kept m t) = walk id stack (kept (.names P) t') := by
  induction h with
  | done => rfl
  | stop t hbrace hhead hafter => rw [kept, kept, hbrace, hafter]
  | take hbrace hhead _ ih => rw [kept, hbrace, walk_atom rfl, ih]

/-- A text that is read as behind the names `P` in the mode of these names. -/
theorem Passes.refl (P : Pending) (t : Text) : Passes (.names P) P t t := by
  cases t with
  | nil => exact .done _ P
  | cons ch t => exact .stop t rfl rfl rfl

/-- A character that is not read as a part of a statement. -/
theorem Passes.stay {m : Mode} {P : Pending} {ch : Char} {t t' : Text} (h : m.read ch = none)
    (hpass : Passes (m.stay ch) P t t') : Passes m P (ch :: t) t' := by
  refine .take ?_ ?_ ?_
  · rw [Mode.brace, h]
  · rw [Mode.head, h]
  · rw [Mode.after, h]
    exact hpass

/-- Where a comment, a value or a skipped part ends, no name is pending. -/
theorem Passes.of_read {m : Mode} {ch : Char} (h : m.read ch = some {}) (t : Text) :
    Passes m {} (ch :: t) (ch :: t) := by
  refine .stop t ?_ ?_ ?_
  · rw [Mode.brace, h, Mode.brace, Mode.read]
  · rw [Mode.head, h, Mode.head, Mode.read]
  · rw [Mode.after, h, Mode.after, Mode.read]
    simp only [Pending.next]
    rfl

/-- The rest of the line behind a malformed statement. -/
theorem passes_skip (t : Text) : Passes .skip {} t (endOfLine t) := by
  unfold endOfLine
  induction t with
  | nil => exact .done _ _
  | cons ch t ih =>
    by_cases h : ch = '\n' ∨ ch = '}'
    · have hstop : (!(ch == '\n' || ch == '}')) = false := by
        rcases h with rfl | rfl <;> rfl
      rw [List.dropWhile_cons, hstop, if_neg Bool.false_ne_true]
      exact .of_read (m := .skip) (if_pos h) t
    · have hgo : (!(ch == '\n' || ch == '}')) = true := by
        rw [not_or] at h
        rw [beq_eq_false_iff_ne.mpr h.1, beq_eq_false_iff_ne.mpr h.2]
        rfl
      rw [List.dropWhile_cons, hgo, if_pos rfl]
      exact .stay (m := .skip) (if_neg h) ih

/-- A comment up to the end of its line. -/
theorem passes_comment {w : Text} (hw : '\n' ∉ w) (P : Pending) (t : Text) :
    Passes (.comment P) (P.newline false) (w ++ '\n' :: t) t := by
  induction w with
  | nil => exact .take rfl rfl (.refl _ t)
  | cons ch w ih =>
    rw [List.mem_cons, not_or] at hw
    exact .stay (m := .comment P) (if_neg (Ne.symm hw.1)) (ih hw.2)

/-- A comment in the last line. -/
theorem passes_comment_last {t : Text} (h : '\n' ∉ t) (P : Pending) :
    Passes (.comment P) P t [] := by
  induction t with
  | nil => exact .done _ P
  | cons ch t ih =>
    rw [List.mem_cons, not_or] at h
    exact .stay (m := .comment P) (if_neg (Ne.symm h.1)) (ih h.2)

/-- Behind a backslash only the characters that it escapes are read in another way. Any other one
leaves the value where it was. -/
theorem Passes.value_escape {ch : Char} {t t' : Text} (h : isEscaped ch = false)
    (hpass : Passes (.value false) {} (ch :: t) t') : Passes (.value true) {} (ch :: t) t' := by
  -- a character that is no backslash is read alike in both modes of a value
  have hread : (Mode.value true).read ch = (Mode.value false).read ch := by
    simp only [Mode.read, h, Bool.false_eq_true, and_false]
  have hstay : (Mode.value true).stay ch = (Mode.value false).stay ch := by
    have hne : ch ≠ '\\' := by
      rintro rfl
      cases h
    simp only [Mode.stay, beq_eq_false_iff_ne.mpr hne, Bool.and_false]
  have hbrace : (Mode.value true).brace ch = (Mode.value false).brace ch := by
    rw [Mode.brace, hread, Mode.brace]
  have hhead : (Mode.value true).head ch = (Mode.value false).head ch := by
    rw [Mode.head, hread, Mode.head]
  have hafter : (Mode.value true).after ch = (Mode.value false).after ch := by
    rw [Mode.after, hread, hstay]
    rfl
  -- so the step is the same, and so is everything behind it
  cases hpass with
  | stop _ hb hh ha => exact .stop t (hbrace.trans hb) (hhead.trans hh) (hafter.trans ha)
  | take hb hh hpass => exact .take (hbrace.trans hb) (hhead.trans hh) (hafter ▸ hpass)

/-- A value. The scan over modes passes what `getAStrLoop` takes, by the cases of that function. -/
theorem passes_value (t : Text) : Passes (.value false) {} t (getAStrLoop t).2 := by
  have hstop {ch : Char} (h : isValueEnd ch = true) (t : Text) :
      Passes (.value false) {} (ch :: t) (ch :: t) :=
    .of_read (m := .value false) (if_pos ⟨h, fun h => Bool.false_ne_true h.1⟩) t
  have hgo {ch : Char} (h : ¬ isValueEnd ch = true) {t t' : Text}
      (hpass : Passes (.value (ch == '\\')) {} t t') : Passes (.value false) {} (ch :: t) t' :=
    .stay (m := .value false) (if_neg fun h' => h h'.1) hpass
  induction t using getAStrLoop.induct with
  | case1 => exact .done _ _
  | case2 ch h =>
    simp only [getAStrLoop, if_pos h]
    exact hstop h []
  | case3 ch h =>
    simp only [getAStrLoop, if_neg h]
    exact hgo h (.done _ _)
  | case4 ch next text h =>
    simp only [getAStrLoop, if_pos h]
    exact hstop h _
  | case5 ch next text h hesc ih =>
    simp only [getAStrLoop, if_neg h, if_pos hesc]
    refine hgo h ?_
    rw [hesc.1]
    exact .stay (m := .value true) (if_neg fun h' => h'.2 ⟨rfl, hesc.2⟩) ih
  | case6 ch next text h hesc ih =>
    simp only [getAStrLoop, if_neg h, if_neg hesc]
    refine hgo h ?_
    by_cases hch : ch = '\\'
    · -- a backslash that escapes nothing
      rw [hch]
      refine .value_escape ?_ ih
      exact Bool.eq_false_iff.mpr fun h => hesc ⟨hch, h⟩
    · rw [beq_eq_false_iff_ne.mpr hch]
      exact ih

/-- Blanks behind a blank. They leave a pending name that has not begun as it is. -/
theorem passes_blanks {P : Pending} (h : P.curVariable = []) (t : Text) :
    Passes (.names P) P t (behindBlanks t) := by
  unfold behindBlanks
  -- without a second name the blanks are all that is passed
  have htwo : ¬ P.Two := fun htwo => htwo.2.1 h
  induction t with
  | nil => exact .done _ P
  | cons ch t ih =>
    rw [List.dropWhile_cons]
    split_ifs with hblank
    -- the mode stays the same over a blank
    · rw [Bool.or_eq_true, beq_iff_eq, beq_iff_eq] at hblank
      have hafter : (Mode.names P).after ch = .names P := by
        have hnext := P.next_blank hblank true
        rw [if_neg htwo, Pending.blank, if_pos h] at hnext
        exact hnext
      refine .take ?_ ?_ ?_
      · rcases hblank with rfl | rfl <;> rfl
      · rcases hblank with rfl | rfl <;> rfl
      · rw [hafter]
        exact ih
    · exact .refl P _

end CParser

end OnlineJudger
