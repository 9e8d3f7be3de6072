import OnlineJudger.Proofs.LZData.LzdScan

/-!
# `OnlineJudger.Proofs.LZData.LzdMoves`: a run of the lzd parser along a scan

`At p node P t` says that the parser stands in a section with the tree `node`, has the names `P`
pending and the text `t` in front of it. The rules `At.…` say where one character takes it.
`Move` collects those that stay in the section, so that a proof about runs has four cases
(`move_cases`): the end of the text, a closing brace, a section, and a move.

* `Move.goes`, `Move.passes`, `Move.scan_eq`, `Move.length_lt`: what a move is to a parser and to
  a scan.
* `At.exists_evals`: the parser ends, and it leaves the text that `scan` leaves.
-/

set_option autoImplicit false

namespace OnlineJudger

open Lib

namespace CParser

/-- The pending names of the parser. Of the lines that it counts, only this matters: whether a
finished name is from the line that it is on. -/
structure Pends (p : CParser) (P : Pending) : Prop where
  variable' : p.variable' = P.variable'
  curVariable : p.curVariable = P.curVariable
  sameLine : P.variable' ≠ [] → (p.varLine = p.curLine ↔ P.sameLine = true)

/-- The parser runs in a section with the tree `node`, in front of the text `t`. -/
structure At (p : CParser) (node : LZData) (P : Pending) (t : Text) : Prop extends Pends p P where
  strText : p.strText = t
  curNode : p.curNode = node
  bEnd : p.bEnd = false
  errorID : p.errorID = 0

variable {p : CParser} {node : LZData} {P : Pending} {t : Text} {ch : Char}

/-! ### The names -/

/-- Two names on one line, as `parseVarName` finds them. -/
theorem Pends.two_iff (h : Pends p P) :
    (p.variable' ≠ [] ∧ p.curVariable ≠ [] ∧ p.varLine = p.curLine) ↔ P.Two := by
  rw [h.variable', h.curVariable, Pending.Two]
  refine and_congr_right fun hvar => and_congr_right fun _ => ?_
  exact h.sameLine hvar

/-- A name is found. The pending characters are either a finished name or one that the call
finishes, and both stand for the same name. -/
theorem Pends.parseVarName (h : Pends p P) (hmal : ¬ P.Malformed) :
    p.parseVarName = (P.name, p) := by
  -- there is a name
  have hnamed : ¬ (p.variable' = [] ∧ p.curVariable = []) := by
    rw [h.variable', h.curVariable]
    exact fun hun => hmal (.inl hun)
  -- and not two of them on one line
  have htwo : ¬ (p.variable' ≠ [] ∧ p.curVariable ≠ [] ∧ p.varLine = p.curLine) := by
    rw [h.two_iff]
    exact fun htwo => hmal (.inr htwo)
  -- the parser's choice between its two buffers is the one of the pending name
  have hname : (if p.variable' ≠ [] ∧ p.curVariable ≠ [] then p.curVariable
      else if p.variable' ≠ [] then p.variable' else p.curVariable) =
        if P.curVariable = [] then P.variable' else P.curVariable := by
    rw [← h.variable', ← h.curVariable]
    by_cases hcur : p.curVariable = []
    · have hvar : p.variable' ≠ [] := fun hvar => hnamed ⟨hvar, hcur⟩
      rw [if_neg fun h => h.2 hcur, if_pos hvar, if_pos hcur]
    · rw [if_neg hcur]
      split_ifs with hboth hvar
      · rfl
      · exact absurd ⟨hvar, hcur⟩ hboth
      · rfl
  rw [CParser.parseVarName, if_neg hnamed, if_neg htwo, hname]
  rfl

/-- No name is found, or two. Either is an error, and then the name is empty. -/
theorem Pends.parseVarName_malformed (h : Pends p P) (hmal : P.Malformed) :
    ∃ id, id ≠ 0 ∧ p.parseVarName = ([], p.setError id) := by
  rcases hmal with hun | htwo
  · refine ⟨1, by decide, ?_⟩
    rw [CParser.parseVarName, if_pos (by rw [h.variable', h.curVariable]; exact hun)]
  · refine ⟨2, by decide, ?_⟩
    have htwo' := h.two_iff.mpr htwo
    rw [CParser.parseVarName, if_neg fun hun => htwo'.1 hun.1, if_pos htwo']

/-! ### One character -/

/-- The loop at `p` goes on at `p'`, and it reports nothing on the way. -/
structure Silent (p p' : CParser) : Prop where
  reaches : Reaches p p'
  output : p'.output = p.output

/-- Two stretches without a report. -/
theorem Silent.trans {p p' p'' : CParser} (h : Silent p p') (h' : Silent p' p'') :
    Silent p p'' := ⟨h.reaches.trans h'.reaches, h'.output.trans h.output⟩

/-- The loop at `p` goes on at `p'`, and it reports an error in front of `t` on the way. -/
structure Reports (p p' : CParser) (t : Text) : Prop where
  reaches : Reaches p p'
  output : ∃ e, p'.output = p.output ++ [e] ∧ e.curLine = p.curLine ∧ e.left = t

/-- The rest of the line behind a malformed statement is skipped. -/
theorem at_settle_error {q : CParser} (hend : q.bEnd = false) (herr : q.errorID ≠ 0) :
    At q.settle q.curNode {} (endOfLine q.strText) := by
  have herror : q.error = true := decide_eq_true herr
  rw [settle, if_pos herror]
  exact ⟨⟨rfl, rfl, fun h => absurd rfl h⟩, rfl, rfl, hend, rfl⟩

/-- An error is reported once, at the end of its pass, with the line it is on. -/
theorem reports_settle {q : CParser} (hreach : Reaches p q.settle) (herr : q.errorID ≠ 0)
    (hout : q.output = p.output) (hline : q.curLine = p.curLine) :
    Reports p q.settle q.strText := by
  have herror : q.error = true := decide_eq_true herr
  refine ⟨hreach, ?_⟩
  rw [settle, if_pos herror, onError, ← hout, ← hline]
  exact ⟨_, rfl, rfl, rfl⟩

namespace At

/-- Taking a character off the text leaves the names. -/
theorem pends_tail (h : At p node P (ch :: t)) : Pends { p with strText := t } P :=
  ⟨h.variable', h.curVariable, h.sameLine⟩

/-- The text is read. -/
theorem evals_nil (h : At p node P []) : Evals parseLoop p p := evals_end (.inl h.strText)

/-- The section is closed. -/
theorem evals_close (h : At p node P ('}' :: t)) :
    ∃ r, Evals parseLoop p r ∧ r.curNode = node ∧ r.strText = t ∧ r.output = p.output := by
  have hreach := reaches_plain h.strText h.bEnd (by decide) rfl h.errorID
  exact ⟨_, hreach _ (evals_end (.inr rfl)), h.curNode, rfl, rfl⟩

/-- A character that is taken without an error. -/
theorem exists_silent {q : CParser} {node' : LZData} {P' : Pending} {t' : Text}
    (h : At p node P (ch :: t)) (hch : ch ≠ '{') (hplain : { p with strText := t }.onPlain ch = q)
    (hq : At q node' P' t') : ∃ p', Silent p p' ∧ At p' node' P' t' := by
  have hout : q.output = p.output := by
    rw [← hplain]
    exact onPlain_output _ ch
  exact ⟨q, ⟨reaches_plain h.strText h.bEnd hch hplain hq.errorID, hout⟩, hq⟩

/-- A character that raises an error. -/
theorem exists_reports {q : CParser} (hreach : Reaches p q.settle) (herr : q.errorID ≠ 0)
    (hend : q.bEnd = false) (hnode : q.curNode = node) (htext : q.strText = t)
    (hout : q.output = p.output) (hline : q.curLine = p.curLine) :
    ∃ p', Reports p p' t ∧ At p' node {} (endOfLine t) := by
  refine ⟨q.settle, ?_, ?_⟩
  · have hreports := reports_settle hreach herr hout hline
    rwa [htext] at hreports
  · have hat := at_settle_error hend herr
    rwa [hnode, htext] at hat

/-- A newline finishes a name that has begun, and counts a line. Nothing else of the parser is
touched, and no error is reported. -/
theorem newline (h : At p node P ('\n' :: t)) (last : Bool) :
    ∃ p', Silent p p' ∧ At p' node (P.newline last) t := by
  refine h.exists_silent (q := { p with strText := t }.onReturn) (by decide) rfl ?_
  by_cases hmal : P.Malformed
  · -- a line without a name, or with two, leaves none
    obtain ⟨id, hid, hname⟩ := h.pends_tail.parseVarName_malformed hmal
    have herror : (({ p with strText := t }.setError id).clearNames).error = true :=
      decide_eq_true hid
    rw [Pending.newline, if_pos hmal, onReturn, hname]
    simp only [if_pos herror]
    exact ⟨⟨rfl, rfl, fun h => absurd rfl h⟩, rfl, h.curNode, h.bEnd, rfl⟩
  · have hname := h.pends_tail.parseVarName hmal
    have herror : ¬ ({ p with strText := t }.clearNames).error = true := by
      rw [error, decide_eq_true_eq, not_not]
      exact h.errorID
    rw [Pending.newline, if_neg hmal, onReturn, hname]
    simp only [if_neg herror]
    refine ⟨⟨rfl, rfl, fun _ => ?_⟩, rfl, h.curNode, h.bEnd, h.errorID⟩
    -- the name was set on the line that has ended
    exact iff_of_false (Nat.ne_of_lt (Nat.lt_succ_self p.curLine)) Bool.false_ne_true

/-- Both kinds of blanks are one case of the `switch`. -/
theorem onPlain_blank (q : CParser) (hch : ch = ' ' ∨ ch = '\t') : q.onPlain ch = q.onSpace := by
  rcases hch with rfl | rfl
  · rfl
  · rfl

/-- A blank finishes a name that has begun, and the blanks behind it are skipped. That a second name
ends with the blank is another move. -/
theorem blank (h : At p node P (ch :: t)) (hch : ch = ' ' ∨ ch = '\t') (htwo : ¬ P.Two) :
    ∃ p', Silent p p' ∧ At p' node P.blank (behindBlanks t) := by
  have hne : ch ≠ '{' := by rcases hch with rfl | rfl <;> decide
  refine h.exists_silent hne (onPlain_blank _ hch) ?_
  have hvar := h.variable'
  have hcur := h.curVariable
  rw [← h.pends_tail.two_iff] at htwo
  rw [Pending.blank, onSpace]
  by_cases hempty : P.curVariable = []
  · have hboth : ¬ (p.variable' ≠ [] ∧ p.curVariable ≠ []) := fun h => h.2 (hcur.trans hempty)
    have hone : ¬ (p.variable' = [] ∧ p.curVariable ≠ []) := fun h => h.2 (hcur.trans hempty)
    rw [if_pos hempty, if_neg hboth, if_neg hone]
    exact ⟨⟨hvar, hcur, h.sameLine⟩, rfl, h.curNode, h.bEnd, h.errorID⟩
  · rw [if_neg hempty]
    have hcur' : p.curVariable ≠ [] := fun h => hempty (hcur.symm.trans h)
    have hset : At ({ { p with strText := t }.setVar p.curVariable with
        curVariable := [] }.skipSpace) node { variable' := P.curVariable }
        (behindBlanks t) :=
      ⟨⟨hcur, rfl, fun _ => iff_of_true rfl rfl⟩, rfl, h.curNode, h.bEnd, h.errorID⟩
    by_cases hvar' : p.variable' = []
    · rw [if_neg fun h => h.1 hvar', if_pos ⟨hvar', hcur'⟩]
      exact hset
    · -- the name of an earlier line gives way
      rw [if_pos ⟨hvar', hcur'⟩, if_neg fun hline => htwo ⟨hvar', hcur', hline⟩]
      exact hset

/-- A blank behind a second name on the line. -/
theorem blank_two (h : At p node P (ch :: t)) (hch : ch = ' ' ∨ ch = '\t') (htwo : P.Two) :
    ∃ p', Reports p p' t ∧ At p' node {} (endOfLine t) := by
  have hne : ch ≠ '{' := by rcases hch with rfl | rfl <;> decide
  have htwo' := h.pends_tail.two_iff.mpr htwo
  have hplain : { p with strText := t }.onPlain ch = { p with strText := t }.setError 2 := by
    rw [onPlain_blank _ hch, onSpace, if_pos ⟨htwo'.1, htwo'.2.1⟩, if_pos htwo'.2.2]
  have hreach := reaches_char h.strText h.bEnd hne
  rw [hplain] at hreach
  exact exists_reports hreach (show 2 ≠ 0 by decide) h.bEnd h.curNode rfl rfl rfl

/-- A comment is skipped up to the end of its line. -/
theorem comment (h : At p node P ('#' :: t)) :
    ∃ p', Silent p p' ∧ At p' node P (endOfComment t) := by
  refine h.exists_silent (q := { p with strText := t }.onComment) (by decide) rfl ?_
  exact ⟨⟨h.variable', h.curVariable, h.sameLine⟩, rfl, h.curNode, h.bEnd, h.errorID⟩

/-- A semicolon does nothing. -/
theorem semicolon (h : At p node P (';' :: t)) : ∃ p', Silent p p' ∧ At p' node P t := by
  refine h.exists_silent (q := { p with strText := t }) (by decide) rfl ?_
  exact ⟨⟨h.variable', h.curVariable, h.sameLine⟩, rfl, h.curNode, h.bEnd, h.errorID⟩

/-- A character of a name. -/
theorem other (h : At p node P (ch :: t)) (hch : isNameChar ch = true) :
    ∃ p', Silent p p' ∧ At p' node (P.add ch) t := by
  have hne := ne_of_isNameChar hch
  refine h.exists_silent (q := { p with strText := t }.onOther ch) hne.1 ?_ ?_
  · simp only [onPlain, hne, or_self, if_false]
  · refine ⟨⟨h.variable', ?_, h.sameLine⟩, rfl, h.curNode, h.bEnd, h.errorID⟩
    rw [Pending.add, ← h.curVariable]
    rfl

/-- An assignment to the pending name. Its value ends with the line. -/
theorem equal (h : At p node P ('=' :: t)) (hmal : ¬ P.Malformed) :
    ∃ p', Silent p p' ∧
      At p' (node.write P.name (trimString (getAStrLoop t).1)).1 {} (getAStrLoop t).2 := by
  refine h.exists_silent (q := { p with strText := t }.onEqual) (by decide) rfl ?_
  have hname := h.pends_tail.parseVarName hmal
  have herror : ¬ ({ p with strText := t }.clearNames).error = true := by
    rw [error, decide_eq_true_eq, not_not]
    exact h.errorID
  rw [onEqual, hname]
  simp only [if_neg herror]
  refine ⟨⟨rfl, rfl, fun h => absurd rfl h⟩, rfl, ?_, h.bEnd, h.errorID⟩
  rw [← h.curNode]
  rfl

/-- An assignment without a name, or with two. -/
theorem equal_malformed (h : At p node P ('=' :: t)) (hmal : P.Malformed) :
    ∃ p', Reports p p' t ∧ At p' node {} (endOfLine t) := by
  obtain ⟨id, hid, hname⟩ := h.pends_tail.parseVarName_malformed hmal
  have herror : (({ p with strText := t }.setError id).clearNames).error = true :=
    decide_eq_true hid
  have hequal : { p with strText := t }.onEqual =
      ({ p with strText := t }.setError id).clearNames := by
    rw [onEqual, hname]
    simp only [if_pos herror]
  have hreach : Reaches p ({ p with strText := t }.onEqual).settle :=
    reaches_char h.strText h.bEnd (by decide)
  rw [hequal] at hreach
  exact exists_reports hreach hid h.bEnd h.curNode rfl rfl rfl

/-- A section without a name, or with two. It is not opened, so its text is read in the section
around it. -/
theorem brace_malformed (h : At p node P ('{' :: t)) (hmal : P.Malformed) :
    ∃ p', Reports p p' t ∧ At p' node {} (endOfLine t) := by
  obtain ⟨id, hid, hname⟩ := h.pends_tail.parseVarName_malformed hmal
  -- the error is set before the buffers are cleared
  have herror : (({ p with strText := t }.setError id).clearNames).error = true :=
    decide_eq_true hid
  have hbrace (parse : CParser → Option CParser) : { p with strText := t }.onLBraket parse =
      some ({ p with strText := t }.setError id).clearNames := by
    rw [onLBraket, hname]
    simp only [if_pos herror]
  -- so the loop goes on behind the brace
  have hreach : Reaches p (({ p with strText := t }.setError id).clearNames).settle := by
    rintro r ⟨fuel, hr⟩
    refine ⟨fuel + 1, ?_⟩
    have hno : ¬ p.bEnd = true := by
      rw [h.bEnd]
      decide
    rw [parseLoop, h.strText]
    simp only [if_neg hno, onChar, if_true, hbrace]
    exact hr
  exact exists_reports hreach hid h.bEnd h.curNode rfl rfl rfl

/-- A section. The inner parser starts at `q`, with no name pending and with a line count of its
own, and what it returns is added as a child. -/
theorem brace (h : At p node P ('{' :: t)) (hmal : ¬ P.Malformed) :
    ∃ q, At q ⟨P.name, [], []⟩ {} t ∧ q.curLine = 0 ∧ q.output = p.output ∧
      ∀ r, Evals parseLoop q r → ∃ p', Reaches p p' ∧ p'.output = r.output ∧
        At p' (node.addChild r.curNode) {} r.strText := by
  have hname := h.pends_tail.parseVarName hmal
  refine ⟨{ p with strText := t }.inner P.name, ?_, rfl, rfl, ?_⟩
  · exact ⟨⟨rfl, rfl, fun h => absurd rfl h⟩, rfl, rfl, rfl, rfl⟩
  · intro r hr
    refine ⟨_, reaches_brace h.strText h.bEnd hname h.errorID hr, rfl, ?_⟩
    refine ⟨⟨rfl, rfl, fun h => absurd rfl h⟩, rfl, ?_, h.bEnd, h.errorID⟩
    rw [← h.curNode]
    rfl

end At

/-! ### Moves -/

/-- A blank is no newline. -/
theorem ne_newline_of_blank {ch : Char} (h : ch = ' ' ∨ ch = '\t') : ch ≠ '\n' := by
  rcases h with rfl | rfl <;> decide

/-- `Move P t change P' t'`: with the names `P` pending and the text `t` in front of it, a parser
comes to `P'` and `t'` in the same section. `change` is the assignment that it makes. -/
inductive Move (P : Pending) : Text → Option (Text × Text) → Pending → Text → Prop
  | newline (t : Text) : Move P ('\n' :: t) none (P.newline true) t
  | blank {ch : Char} (t : Text) : ch = ' ' ∨ ch = '\t' → ¬ P.Two →
      Move P (ch :: t) none P.blank (behindBlanks t)
  | two {ch : Char} (t : Text) : ch = ' ' ∨ ch = '\t' → P.Two →
      Move P (ch :: t) none {} (endOfLine t)
  | comment {w : Text} (t : Text) : '\n' ∉ w →
      Move P ('#' :: (w ++ '\n' :: t)) none (P.newline false) t
  | lastComment {w : Text} : '\n' ∉ w → Move P ('#' :: w) none P []
  | semicolon (t : Text) : Move P (';' :: t) none P t
  | other {ch : Char} (t : Text) : isNameChar ch = true → Move P (ch :: t) none (P.add ch) t
  | equal (t : Text) : ¬ P.Malformed →
      Move P ('=' :: t) (some (P.name, trimString (getAStrLoop t).1)) {} (getAStrLoop t).2
  | malformed {ch : Char} (t : Text) : ch = '{' ∨ ch = '=' → P.Malformed →
      Move P (ch :: t) none {} (endOfLine t)

/-- What a parser can meet: the end of the text, a closing brace, a section, or a move. The case
split of every proof about runs. -/
theorem move_cases (P : Pending) (t : Text) :
    t = [] ∨ (∃ t', t = '}' :: t') ∨ (∃ t', t = '{' :: t' ∧ ¬ P.Malformed) ∨
      ∃ change P' t', Move P t change P' t' := by
  cases t with
  | nil => exact .inl rfl
  -- one case for each kind of character in front
  | cons ch t =>
  refine .inr ?_
  rcases char_cases ch with rfl | rfl | rfl | rfl | hblank | rfl | rfl | hname
  -- a name is pending or not
  · by_cases hmal : P.Malformed
    · exact .inr (.inr ⟨_, _, _, .malformed t (.inl rfl) hmal⟩)
    · exact .inr (.inl ⟨t, rfl, hmal⟩)
  · exact .inl ⟨t, rfl⟩
  · by_cases hmal : P.Malformed
    · exact .inr (.inr ⟨_, _, _, .malformed t (.inr rfl) hmal⟩)
    · exact .inr (.inr ⟨_, _, _, .equal t hmal⟩)
  · exact .inr (.inr ⟨_, _, _, .newline t⟩)
  -- a second name on the line, or the end of the first
  · by_cases htwo : P.Two
    · exact .inr (.inr ⟨_, _, _, .two t hblank htwo⟩)
    · exact .inr (.inr ⟨_, _, _, .blank t hblank htwo⟩)
  -- the comment ends at the line end, or it is the last one
  · by_cases hline : '\n' ∈ t
    · obtain ⟨w, t, rfl, hw⟩ := List.eq_append_cons_of_mem hline
      exact .inr (.inr ⟨_, _, _, .comment t hw⟩)
    · exact .inr (.inr ⟨_, _, _, .lastComment hline⟩)
  · exact .inr (.inr ⟨_, _, _, .semicolon t⟩)
  · exact .inr (.inr ⟨_, _, _, .other t hname⟩)

/-- The tree behind an assignment. -/
def applyChange (node : LZData) : Option (Text × Text) → LZData
  | none => node
  | some (name, value) => (node.write name value).1

namespace Move

variable {P' : Pending} {t' : Text} {change : Option (Text × Text)}

/-- A move takes a character. -/
theorem length_lt (h : Move P t change P' t') : t'.length < t.length := by
  cases h with
  | newline => exact Nat.lt_succ_self _
  | blank t => exact Nat.lt_succ_of_le (length_behindBlanks_le t)
  | two t => exact Nat.lt_succ_of_le (length_endOfLine_le t)
  | comment t hw =>
    rw [List.length_cons, List.length_append, List.length_cons]
    omega
  | lastComment => exact Nat.succ_pos _
  | semicolon => exact Nat.lt_succ_self _
  | other => exact Nat.lt_succ_self _
  | equal t => exact Nat.lt_succ_of_le (getAStrLoop_suffix t).length_le
  | malformed t => exact Nat.lt_succ_of_le (length_endOfLine_le t)

/-- A parser makes the move. If it reports an error, then at the first character, which is not a
newline. -/
theorem goes (h : Move P t change P' t') (hp : At p node P t) :
    ∃ p', (Silent p p' ∨ ∃ ch u, t = ch :: u ∧ ch ≠ '\n' ∧ Reports p p' u) ∧
      At p' (applyChange node change) P' t' := by
  -- each move has its lemma; those of an error report on a character that is no line end
  cases h with
  | newline =>
    obtain ⟨p', hgo, hp'⟩ := hp.newline true
    exact ⟨p', .inl hgo, hp'⟩
  | blank u hblank htwo =>
    obtain ⟨p', hgo, hp'⟩ := hp.blank hblank htwo
    exact ⟨p', .inl hgo, hp'⟩
  | two u hblank htwo =>
    obtain ⟨p', hgo, hp'⟩ := hp.blank_two hblank htwo
    exact ⟨p', .inr ⟨_, u, rfl, ne_newline_of_blank hblank, hgo⟩, hp'⟩
  | comment u hw =>
    obtain ⟨q, hgo, hq⟩ := hp.comment
    rw [endOfComment_append hw] at hq
    obtain ⟨p', hgo', hp'⟩ := hq.newline false
    exact ⟨p', .inl (hgo.trans hgo'), hp'⟩
  | lastComment hw =>
    obtain ⟨p', hgo, hp'⟩ := hp.comment
    rw [endOfComment_last hw] at hp'
    exact ⟨p', .inl hgo, hp'⟩
  | semicolon =>
    obtain ⟨p', hgo, hp'⟩ := hp.semicolon
    exact ⟨p', .inl hgo, hp'⟩
  | other u hname =>
    obtain ⟨p', hgo, hp'⟩ := hp.other hname
    exact ⟨p', .inl hgo, hp'⟩
  | equal u hmal =>
    obtain ⟨p', hgo, hp'⟩ := hp.equal hmal
    exact ⟨p', .inl hgo, hp'⟩
  | malformed u hch hmal =>
    rcases hch with rfl | rfl
    · obtain ⟨p', hgo, hp'⟩ := hp.brace_malformed hmal
      exact ⟨p', .inr ⟨_, u, rfl, by decide, hgo⟩, hp'⟩
    · obtain ⟨p', hgo, hp'⟩ := hp.equal_malformed hmal
      exact ⟨p', .inr ⟨_, u, rfl, by decide, hgo⟩, hp'⟩

/-- A move without its report. -/
theorem reaches (h : Move P t change P' t') (hp : At p node P t) :
    ∃ p', Reaches p p' ∧ At p' (applyChange node change) P' t' := by
  obtain ⟨p', hgo, hp'⟩ := h.goes hp
  refine ⟨p', ?_, hp'⟩
  rcases hgo with hgo | ⟨ch, u, -, -, hgo⟩
  · exact hgo.reaches
  · exact hgo.reaches

/-- A move takes one character of the statement, and what is not read behind it. So the moves and
the scan over modes see the same braces. -/
theorem passes (h : Move P t change P' t') : ∃ ch u, t = ch :: u ∧
    (Mode.names P).brace ch = .atom ∧ Passes ((Mode.names P).after ch) P' u t' := by
  -- the same moves, read by the automaton over modes
  cases h with
  | newline => exact ⟨_, _, rfl, rfl, .refl _ _⟩
  | blank u hblank htwo =>
    refine ⟨_, u, rfl, P.brace_blank hblank, ?_⟩
    rw [Mode.after_names, P.next_blank hblank, if_neg htwo]
    exact passes_blanks P.blank_curVariable u
  | two u hblank htwo =>
    refine ⟨_, u, rfl, P.brace_blank hblank, ?_⟩
    rw [Mode.after_names, P.next_blank hblank, if_pos htwo]
    exact passes_skip u
  | comment _ hw => exact ⟨_, _, rfl, rfl, passes_comment hw P t'⟩
  | lastComment hw => exact ⟨_, _, rfl, rfl, passes_comment_last hw P⟩
  | semicolon => exact ⟨_, _, rfl, rfl, .refl _ _⟩
  | other _ hname =>
    refine ⟨_, t', rfl, P.brace_other hname, ?_⟩
    rw [Mode.after_names, P.next_other hname]
    exact .refl _ t'
  -- an equal sign behind a proper name starts a value
  | equal u hmal =>
    have hafter : (Mode.names P).after '=' = .value false := if_neg hmal
    refine ⟨_, u, rfl, rfl, ?_⟩
    rw [hafter]
    exact passes_value u
  -- a malformed name skips the line, in both forms
  | malformed u hch hmal =>
    rcases hch with rfl | rfl
    · have hafter : (Mode.names P).after '{' = .skip := if_pos hmal
      refine ⟨_, u, rfl, if_pos hmal, ?_⟩
      rw [hafter]
      exact passes_skip u
    · have hafter : (Mode.names P).after '=' = .skip := if_pos hmal
      refine ⟨_, u, rfl, rfl, ?_⟩
      rw [hafter]
      exact passes_skip u

/-- The scan goes on where the move ends. -/
theorem scan_eq (h : Move P t change P' t') (depth : Nat) :
    ∃ heads, scan depth (.names P) t =
      (heads ++ (scan depth (.names P') t').1, (scan depth (.names P') t').2) := by
  obtain ⟨ch, u, rfl, hbrace, hpass⟩ := h.passes
  exact ⟨_, by rw [scan_atom hbrace, hpass.scan_eq depth]⟩

end Move

/-! ### A whole section -/

/-- The parser for a whole text. -/
theorem at_start (t : Text) (node : LZData) :
    At ({ strText := t, curNode := node } : CParser).reset node {} t :=
  ⟨⟨rfl, rfl, fun h => absurd rfl h⟩, rfl, rfl, rfl, rfl⟩

/-- The parser ends, and it leaves the text that `scan` leaves. By induction on the length of the
text, over `move_cases`. -/
theorem At.exists_evals (h : At p node P t) :
    ∃ r, Evals parseLoop p r ∧ r.strText = (scan 0 (.names P) t).2 := by
  -- on the length of the text: moves and sections make it shorter
  induction hn : t.length using Nat.strong_induction_on generalizing p node P t with
  | _ n ih =>
  rcases move_cases P t with rfl | ⟨t, rfl⟩ | ⟨t, rfl, hmal⟩ | ⟨change, P', t', hmove⟩
  · refine ⟨p, h.evals_nil, ?_⟩
    rw [h.strText, scan_nil]
  · obtain ⟨r, hr, -, htext, -⟩ := h.evals_close
    exact ⟨r, hr, htext⟩
  · rw [List.length_cons] at hn
    obtain ⟨q, hq, -, -, hreaches⟩ := h.brace hmal
    -- the inner parser leaves the text that follows the section
    obtain ⟨r, hr, htext⟩ := ih _ (by omega) hq rfl
    obtain ⟨p', hreach, -, hp'⟩ := hreaches r hr
    have hrest := (scan_suffix 0 (.names {}) t).length_le
    rw [← htext] at hrest
    obtain ⟨r', hr', htext'⟩ := ih _ (by omega) hp' rfl
    refine ⟨r', hreach r' hr', ?_⟩
    rw [htext', htext, scan_brace hmal, ← Nat.add_zero (0 + 1), scan_add]
  · obtain ⟨p', hreach, hp'⟩ := hmove.reaches h
    obtain ⟨r, hr, htext⟩ := ih _ (hn ▸ hmove.length_lt) hp' rfl
    obtain ⟨heads, hscan⟩ := hmove.scan_eq 0
    refine ⟨r, hreach r hr, ?_⟩
    rw [htext, hscan]

end CParser

end OnlineJudger
