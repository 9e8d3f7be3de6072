import OnlineJudger.Proofs.LZData.LzdMoves

/-!
# `OnlineJudger.Proofs.LZData.LzdLines`: the lines that the lzd parser counts

`Takes p p' c` says that the parser has taken the text `c` between `p` and `p'`, and that it has
counted the newlines of `c`. Every character and every skip takes what it drops, and the skips
stop in front of a newline.

* `parse_takes`: `parse` ends for every text. It takes a part of it that ends with a closing
  brace, or all of it, and `m_curLine` is the number of newlines in that part.

A `Place` is read off a text alone: the mode, the line, and the lines on which the open sections
begin. `At.traced` follows a run through the places of its text.

* `parse_error_lines_iff`: an inner parser counts its lines from zero, so the line in an error
  description is right exactly if the innermost open section begins on the first line.
-/

set_option autoImplicit false

namespace OnlineJudger

open Lib

namespace CParser

/-! ### What the handlers take -/

/-- Between `p` and `p'` the text `c` was taken, and its newlines were counted. -/
structure Takes (p p' : CParser) (c : Text) : Prop where
  strText : p.strText = c ++ p'.strText
  curLine : p'.curLine = p.curLine + c.count '\n'

/-- Nothing is taken. -/
theorem Takes.refl (p : CParser) : Takes p p [] := ⟨rfl, rfl⟩

/-- What is taken in two stretches. -/
theorem Takes.trans {p p' p'' : CParser} {c c' : Text} (h : Takes p p' c) (h' : Takes p' p'' c') :
    Takes p p'' (c ++ c') := by
  refine ⟨?_, ?_⟩
  · rw [h.strText, h'.strText, List.append_assoc]
  · rw [h'.curLine, h.curLine, List.count_append, Nat.add_assoc]

/-- A part of a line is skipped. -/
theorem takes_skip {p p' : CParser} {w : Text} (htext : p.strText = w ++ p'.strText)
    (hw : '\n' ∉ w) (hline : p'.curLine = p.curLine) : Takes p p' w :=
  ⟨htext, by rw [hline, List.count_eq_zero.mpr hw, Nat.add_zero]⟩

/-- A loop that stops in front of a newline. -/
theorem exists_takes_dropWhile {p p' : CParser} (f : Char → Bool) (hf : f '\n' = false)
    (htext : p'.strText = p.strText.dropWhile f) (hline : p'.curLine = p.curLine) :
    ∃ w, Takes p p' w := by
  refine ⟨p.strText.takeWhile f, takes_skip ?_ ?_ hline⟩
  · rw [htext, List.takeWhile_append_dropWhile]
  · intro hmem
    have := List.mem_takeWhile_imp hmem
    rw [hf] at this
    exact Bool.false_ne_true this

/-- The name is made of what was taken before. -/
theorem parseVarName_takes (p : CParser) : Takes p p.parseVarName.2 [] := by
  unfold parseVarName
  split_ifs <;> exact ⟨rfl, rfl⟩

/-- A value takes no newline. What is read is a front of the text up to the end of the value, and a
newline is such an end. -/
theorem exists_getAStrLoop_append (t : Text) : ∃ w, t = w ++ (getAStrLoop t).2 ∧ '\n' ∉ w := by
  -- a character that does not end the value is not a line end
  have hplain {ch : Char} (h : ¬ isValueEnd ch = true) : '\n' ≠ ch := by
    rintro rfl
    exact h rfl
  -- one case for each branch of the loop
  induction t using getAStrLoop.induct with
  | case1 => exact ⟨[], rfl, List.not_mem_nil⟩
  | case2 ch h =>
    simp only [getAStrLoop, if_pos h]
    exact ⟨[], rfl, List.not_mem_nil⟩
  | case3 ch h =>
    simp only [getAStrLoop, if_neg h]
    exact ⟨[ch], rfl, List.mem_singleton.not.mpr (hplain h)⟩
  | case4 ch next text h =>
    simp only [getAStrLoop, if_pos h]
    exact ⟨[], rfl, List.not_mem_nil⟩
  | case5 ch next text h hesc ih =>
    simp only [getAStrLoop, if_neg h, if_pos hesc]
    obtain ⟨w, htext, hw⟩ := ih
    -- an escaped character is none of the line ends either
    have hnext : '\n' ≠ next := by
      rintro rfl
      exact Bool.false_ne_true hesc.2
    refine ⟨ch :: next :: w, congrArg (ch :: next :: ·) htext, ?_⟩
    exact List.not_mem_cons_of_ne_of_not_mem (hplain h)
      (List.not_mem_cons_of_ne_of_not_mem hnext hw)
  | case6 ch next text h hesc ih =>
    simp only [getAStrLoop, if_neg h, if_neg hesc]
    obtain ⟨w, htext, hw⟩ := ih
    refine ⟨ch :: w, congrArg (ch :: ·) htext, ?_⟩
    exact List.not_mem_cons_of_ne_of_not_mem (hplain h) hw

/-- An assignment takes its value. -/
theorem onEqual_takes (p : CParser) : ∃ w, Takes p p.onEqual w := by
  have hname := parseVarName_takes p
  unfold onEqual
  simp only []
  split_ifs
  · exact ⟨[], hname.strText, hname.curLine⟩
  · obtain ⟨w, htext, hw⟩ := exists_getAStrLoop_append p.parseVarName.2.strText
    exact ⟨w, takes_skip (hname.strText.trans htext) hw hname.curLine⟩

/-- A blank takes the blanks behind it. -/
theorem onSpace_takes (p : CParser) : ∃ w, Takes p p.onSpace w := by
  unfold onSpace
  split_ifs
  · exact ⟨[], rfl, rfl⟩
  · exact exists_takes_dropWhile _ rfl rfl rfl
  · exact exists_takes_dropWhile _ rfl rfl rfl
  · exact exists_takes_dropWhile _ rfl rfl rfl

/-- The newline itself is behind `onReturn` already. -/
theorem onReturn_takes (p : CParser) (text : Text) :
    Takes { p with strText := '\n' :: text } { p with strText := text }.onReturn ['\n'] := by
  have hname := parseVarName_takes { p with strText := text }
  unfold onReturn
  simp only []
  split_ifs
  · exact ⟨congrArg ('\n' :: ·) hname.strText, congrArg (· + 1) hname.curLine⟩
  · exact ⟨congrArg ('\n' :: ·) hname.strText, congrArg (· + 1) hname.curLine⟩

/-- A character that opens no section, and what its handler takes behind it. The handlers that take
more than one character are those of a blank, a comment and an equality sign. -/
theorem onPlain_takes (p : CParser) (ch : Char) (text : Text) :
    ∃ w, Takes { p with strText := ch :: text } ({ p with strText := text }.onPlain ch) w := by
  -- a line end has a branch of its own
  by_cases hch : ch = '\n'
  · subst hch
    exact ⟨_, onReturn_takes p text⟩
  have hplain : ∃ w,
      Takes { p with strText := text } ({ p with strText := text }.onPlain ch) w := by
    unfold onPlain
    rw [if_neg hch]
    split_ifs
    · exact ⟨[], rfl, rfl⟩
    · exact onEqual_takes _
    · exact onSpace_takes _
    · exact exists_takes_dropWhile _ rfl rfl rfl
    · exact ⟨[], rfl, rfl⟩
    · exact ⟨[], rfl, rfl⟩
  -- the character itself
  have hchar : Takes { p with strText := ch :: text } { p with strText := text } [ch] :=
    takes_skip rfl (List.mem_singleton.not.mpr (Ne.symm hch)) rfl
  obtain ⟨w, hw⟩ := hplain
  exact ⟨_, hchar.trans hw⟩

/-- An error takes the rest of its line. -/
theorem settle_takes (p : CParser) : ∃ w, Takes p p.settle w := by
  unfold settle
  split_ifs
  · exact exists_takes_dropWhile (fun ch => !(ch == '\n' || ch == '}')) rfl rfl rfl
  · exact ⟨[], .refl p⟩

/-! ### The end of a section -/

/-- Taking a name does not end the section. -/
theorem parseVarName_bEnd (p : CParser) : p.parseVarName.2.bEnd = p.bEnd := by
  unfold parseVarName
  split_ifs <;> rfl

/-- Only a closing brace ends the section. The inner parser of another one has an end of its own. -/
theorem onPlain_bEnd (p : CParser) {ch : Char} (h : ch ≠ '}') : (p.onPlain ch).bEnd = p.bEnd := by
  unfold onPlain
  rw [if_neg h]
  split_ifs
  · unfold onEqual
    simp only []
    split_ifs <;> exact parseVarName_bEnd p
  · unfold onReturn
    simp only []
    split_ifs <;> exact parseVarName_bEnd p
  · unfold onSpace
    split_ifs <;> rfl
  · rfl
  · rfl
  · rfl

/-- An error does not end the section either. -/
theorem settle_bEnd (p : CParser) : p.settle.bEnd = p.bEnd := by
  unfold settle
  split_ifs <;> rfl

/-- No error is left behind a pass. -/
theorem settle_errorID (p : CParser) : p.settle.errorID = 0 := by
  unfold settle
  split_ifs with h
  · rfl
  · rwa [error, decide_eq_true_eq, not_not] at h

/-- What the loop has read when it ends at `r`: its text, or a part that ends with the brace. -/
structure Stops (r : CParser) (c : Text) : Prop where
  left : r.strText = [] ∨ r.bEnd = true
  brace : r.bEnd = true → ['}'] <:+ c

/-- More text in front of what was read. -/
theorem Stops.append {r : CParser} {c : Text} (h : Stops r c) (c' : Text) : Stops r (c' ++ c) :=
  ⟨h.left, fun hend => (h.brace hend).trans (List.suffix_append c' c)⟩

/-- Behind the closing brace the loop takes nothing. -/
theorem parseLoop_of_bEnd {fuel : Nat} {p r : CParser} (hend : p.bEnd = true)
    (h : parseLoop fuel p = some r) : r = p :=
  parseLoop_fuelMono.unique ⟨fuel, h⟩ (evals_end (.inr hend))

/-- An inner parser counts from zero, and its lines are added. It gets the text behind the brace,
and gives back what it has not taken. -/
theorem onLBraket_takes {parse : CParser → Option CParser} {p q : CParser}
    (hparse : ∀ parser r, parse parser = some r →
      ∃ c, parser.strText = c ++ r.strText ∧ r.curLine = c.count '\n')
    (h : p.onLBraket parse = some q) : (∃ c, Takes p q c) ∧ q.bEnd = p.bEnd := by
  have hname := parseVarName_takes p
  unfold onLBraket at h
  simp only [] at h
  -- the section has no proper name: an error is set, and nothing is taken
  split_ifs at h
  · cases h
    exact ⟨⟨[], hname.strText, hname.curLine⟩, parseVarName_bEnd p⟩
  -- the nested parser gets the rest of the text and a counter of its own
  · cases hr : parse (p.parseVarName.2.clearNames.inner p.parseVarName.1) with
    | none =>
      rw [hr] at h
      simp only [reduceCtorEq] at h
    | some r =>
      rw [hr] at h
      cases h
      obtain ⟨c, htext, hline⟩ := hparse _ _ hr
      refine ⟨⟨c, hname.strText.trans htext, ?_⟩, parseVarName_bEnd p⟩
      -- its count is added to ours
      rw [← hline]
      exact congrArg (· + r.curLine) hname.curLine

/-- The loop takes what it counts. By induction on the fuel, with the same statement for the inner
parsers. -/
theorem parseLoop_takes {fuel : Nat} {p r : CParser} (hend : p.bEnd = false) (herr : p.errorID = 0)
    (h : parseLoop fuel p = some r) : ∃ c, Takes p r c ∧ Stops r c := by
  induction fuel generalizing p r with
  | zero => simp only [parseLoop, reduceCtorEq] at h
  | succ fuel ih =>
  have hno : ¬ p.bEnd = true := by
    rw [hend]
    decide
  rw [parseLoop] at h
  cases htext : p.strText with
  | nil =>
    rw [htext] at h
    cases h
    exact ⟨[], .refl p, .inl htext, fun h => absurd h hno⟩
  | cons ch text =>
  rw [htext] at h
  simp only [if_neg hno] at h
  have hp : p = { p with strText := ch :: text } := by rw [← htext]
  -- the loop goes on behind a pass that does not end the section
  have hpass {q : CParser} {w : Text} (htakes : Takes p q w) (hq : q.bEnd = false)
      (hloop : parseLoop fuel q.settle = some r) : ∃ c, Takes p r c ∧ Stops r c := by
    obtain ⟨w', hw'⟩ := settle_takes q
    obtain ⟨c, hc, hstop⟩ := ih ((settle_bEnd q).trans hq) (settle_errorID q) hloop
    exact ⟨_, (htakes.trans hw').trans hc, hstop.append _⟩
  by_cases hopen : ch = '{'
  · subst hopen
    have hchar : Takes p { p with strText := text } ['{'] := by
      rw [hp]
      exact takes_skip rfl (by decide) rfl
    simp only [onChar, if_true] at h
    cases hq : onLBraket (fun parser => parseLoop fuel parser.reset)
        { p with strText := text } with
    | none =>
      rw [hq] at h
      simp only [reduceCtorEq] at h
    | some q =>
      rw [hq] at h
      obtain ⟨⟨c, hc⟩, hqEnd⟩ := onLBraket_takes (fun parser r hr => by
        obtain ⟨c, hc, -⟩ := ih (p := parser.reset) rfl rfl hr
        exact ⟨c, hc.strText, hc.curLine.trans (Nat.zero_add _)⟩) hq
      exact hpass (hchar.trans hc) (hqEnd.trans hend) h
  · rw [onChar_of_ne hopen] at h
    by_cases hclose : ch = '}'
    · subst hclose
      have hplain : ({ p with strText := text }.onPlain '}').errorID = 0 := herr
      change parseLoop fuel (settle _) = some r at h
      rw [settle_of_errorID hplain] at h
      rw [parseLoop_of_bEnd rfl h, hp]
      exact ⟨['}'], takes_skip rfl (by decide) rfl, .inr rfl, fun _ => List.suffix_rfl⟩
    · obtain ⟨w, hw⟩ := onPlain_takes p ch text
      rw [← hp] at hw
      exact hpass hw ((onPlain_bEnd _ hclose).trans hend) h

/-- `parse` ends for every text and every parser object. Its text is left behind a closing brace or
empty, and the lines that it has counted are those of the part that was read. So a nested parser
hands over where its section ends, and the outer one goes on with the right count. -/
theorem parse_takes (p : CParser) : ∃ r consumed, p.parse = some r ∧
    (∀ fuel, p.strText.length < fuel → parseLoop fuel p.reset = some r) ∧
    p.strText = consumed ++ r.strText ∧ (p.strText ≠ [] → consumed ≠ []) ∧
    (r.strText = [] ∨ r.bEnd = true) ∧ (r.bEnd = true → consumed.getLast? = some '}') ∧
    r.curLine = consumed.count '\n' := by
  obtain ⟨r, hr, -⟩ := parse_isSome p
  obtain ⟨c, hc, hstop⟩ := parseLoop_takes rfl rfl hr
  have htext : p.strText = c ++ r.strText := hc.strText
  refine ⟨r, c, hr, ?_, htext, ?_, hstop.left, ?_, hc.curLine.trans (Nat.zero_add _)⟩
  · intro fuel hfuel
    obtain ⟨r', hr', -⟩ := parseLoop_isSome (p := p.reset) hfuel
    rw [hr', parseLoop_fuelMono.unique ⟨_, hr'⟩ ⟨_, hr⟩]
  · rintro hne rfl
    -- the loop has stopped, so a brace was taken
    rcases hstop.left with hnil | hend
    · exact hne (htext.trans hnil)
    · exact List.cons_ne_nil _ _ (List.suffix_nil.mp (hstop.brace hend))
  · intro hend
    obtain ⟨w, rfl⟩ := hstop.brace hend
    exact List.getLast?_concat

/-! ### Places in a text -/

/-- A place in a text, for someone who counts lines. -/
structure Place where
  mode : Mode := .names {}
  /-- The newlines in front of the place. -/
  line : Nat := 0
  /-- The lines on which the open sections begin, the innermost first, without the root. -/
  starts : List Nat := []
  deriving DecidableEq, Repr

namespace Place

/-- The place behind a character. A brace that opens a section puts its line on the stack, and one
that closes a section takes it off. -/
def next (s : Place) (ch : Char) : Place where
  mode := s.mode.after ch
  line := if ch = '\n' then s.line + 1 else s.line
  starts :=
    match s.mode.brace ch with
    | .opening _ => s.line :: s.starts
    | .closing _ => s.starts.tail
    | .atom => s.starts

/-- The place behind a text. -/
def run (s : Place) (t : Text) : Place := t.foldl next s

/-- The line on which the innermost open section begins. -/
def start (s : Place) : Nat := s.starts.headD 0

variable {s : Place} {P : Pending} {t t' : Text} {ch : Char}

/-- The first character, and the others. -/
theorem run_cons (s : Place) (ch : Char) (t : Text) : s.run (ch :: t) = (s.next ch).run t := rfl

/-- A text in two parts. -/
theorem run_append (s : Place) (t t' : Text) : s.run (t ++ t') = (s.run t).run t' :=
  List.foldl_append

/-- The line of a place counts the newlines. By induction on the text. -/
theorem run_line (s : Place) (t : Text) : (s.run t).line = s.line + t.count '\n' := by
  induction t generalizing s with
  | nil => rfl
  | cons ch t ih =>
    rw [run_cons, ih]
    by_cases hch : ch = '\n'
    · have hline : (s.next ch).line = s.line + 1 := if_pos hch
      rw [hline, hch, List.count_cons_self, Nat.add_assoc, Nat.add_comm 1]
    · have hline : (s.next ch).line = s.line := if_neg hch
      rw [hline, List.count_cons_of_ne hch]

/-- In front of `t` the place is read as behind the names `P`. -/
def Reads (s : Place) (P : Pending) (t : Text) : Prop :=
  ∀ ch u, t = ch :: u → s.next ch = { s with mode := .names P }.next ch

/-- A place whose mode is already that of the names. -/
theorem reads_of_mode (h : s.mode = .names P) (t : Text) : s.Reads P t := by
  intro ch u _
  rw [← h]

/-- A character that is no brace opens and closes nothing. -/
theorem next_starts_of_atom (h : s.mode.brace ch = .atom) : (s.next ch).starts = s.starts := by
  simp only [next, h]

end Place

/-- Behind what is not read, the same sections are open. -/
theorem Passes.run {m : Mode} {P : Pending} {t t' : Text} (h : Passes m P t t') {s : Place}
    (hs : s.mode = m) :
    ∃ c, t = c ++ t' ∧ (s.run c).Reads P t' ∧ (s.run c).starts = s.starts := by
  induction h generalizing s with
  | done => exact ⟨[], rfl, fun _ _ h => (List.cons_ne_nil _ _ h.symm).elim, rfl⟩
  | stop t hbrace hhead hafter =>
    refine ⟨[], rfl, ?_, rfl⟩
    rintro ch u h
    cases h
    simp only [Place.run, List.foldl_nil, Place.next, hs, hbrace, hafter]
  | take hbrace hhead hpass ih =>
    obtain ⟨c, rfl, hreads, hstarts⟩ := ih (s := s.next _) (congrArg (Mode.after · _) hs)
    rw [← hs] at hbrace
    exact ⟨_ :: c, rfl, hreads, hstarts.trans (Place.next_starts_of_atom hbrace)⟩

/-! ### The lines of the errors -/

/-- What a run that stops has taken, if a run from `p` passes through `p'`. -/
theorem Reaches.curLine {p p' : CParser} {node node' : LZData} {P P' : Pending} {t t' c : Text}
    (h : Reaches p p') (hp : At p node P t) (hp' : At p' node' P' t') (htext : t = c ++ t') :
    p'.curLine = p.curLine + c.count '\n' := by
  obtain ⟨r, ⟨fuel, hr⟩, -⟩ := hp'.exists_evals
  obtain ⟨fuel', hr'⟩ := h r ⟨fuel, hr⟩
  obtain ⟨c₁, h₁, -⟩ := parseLoop_takes hp'.bEnd hp'.errorID hr
  obtain ⟨c₂, h₂, -⟩ := parseLoop_takes hp.bEnd hp.errorID hr'
  have hc : c₂ = c ++ c₁ := by
    have heq : c₂ ++ r.strText = c ++ c₁ ++ r.strText := by
      rw [← h₂.strText, hp.strText, htext, ← hp'.strText, h₁.strText, List.append_assoc]
    exact List.append_cancel_right heq
  have hline := h₂.curLine.symm.trans h₁.curLine
  rw [hc, List.count_append] at hline
  omega

/-- An error report of a parser that has read from the place `s` on: its line is counted from the
innermost section that is open at the error. -/
def Placed (s : Place) (t : Text) (e : ErrorReport) : Prop :=
  ∃ pre, t = pre ++ e.left ∧ e.curLine + (s.run pre).start = (s.run pre).line

/-- An error that is placed from a later place on is placed from an earlier one. -/
theorem Placed.append {s : Place} {t c : Text} {e : ErrorReport} (h : Placed (s.run c) t e) :
    Placed s (c ++ t) e := by
  obtain ⟨pre, rfl, hline⟩ := h
  exact ⟨c ++ pre, (List.append_assoc ..).symm, by rwa [Place.run_append]⟩

/-- The run from `p` to `r` has placed its errors, and closed its section if it was closed. -/
structure Traced (s : Place) (p r : CParser) (t : Text) : Prop where
  placed : ∃ es, r.output = p.output ++ es ∧ ∀ e ∈ es, Placed s t e
  closed : ∃ c, t = c ++ r.strText ∧
    (r.bEnd = true → (s.run c).mode = .names {} ∧ (s.run c).starts = s.starts.tail)

/-- A run that begins with a stretch in the same section, whose errors are placed. -/
theorem Traced.append {s : Place} {p p' r : CParser} {t c : Text} {es : List ErrorReport}
    (h : Traced (s.run c) p' r t) (hstarts : (s.run c).starts = s.starts)
    (hout : p'.output = p.output ++ es) (hes : ∀ e ∈ es, Placed s (c ++ t) e) :
    Traced s p r (c ++ t) := by
  obtain ⟨⟨es', hout', hes'⟩, c', rfl, hclosed⟩ := h
  refine ⟨⟨es ++ es', ?_, ?_⟩, c ++ c', (List.append_assoc ..).symm, ?_⟩
  · rw [hout', hout, List.append_assoc]
  · intro e he
    rcases List.mem_append.mp he with he | he
    · exact hes e he
    · exact (hes' e he).append
  · intro hend
    rw [Place.run_append, ← hstarts]
    exact hclosed hend

/-- The place `s` is where the parser stands, with the names `P` in front of the text `t`. -/
structure Stands (s : Place) (p : CParser) (P : Pending) (t : Text) : Prop where
  reads : s.Reads P t
  line : p.curLine + s.start = s.line

variable {p p' : CParser} {node node' : LZData} {P P' : Pending} {t t' c : Text} {s : Place}

/-- The parser stands behind the text that it has taken, in the same section. -/
theorem Stands.behind (h : Stands s p P t) (hreach : Reaches p p') (hp : At p node P t)
    (hp' : At p' node' P' t') (htext : t = c ++ t') (hreads : (s.run c).Reads P' t')
    (hstarts : (s.run c).starts = s.starts) : Stands (s.run c) p' P' t' := by
  refine ⟨hreads, ?_⟩
  have hline := h.line
  rw [Place.start] at hline
  rw [hreach.curLine hp hp' htext, Place.run_line, Place.start, hstarts]
  omega

/-- The inner parser counts from the line of the brace. -/
theorem Place.next_brace (hs : s.Reads P ('{' :: t)) (hmal : ¬ P.Malformed) :
    s.next '{' = ⟨.names {}, s.line, s.line :: s.starts⟩ := by
  have hbrace : (Mode.names P).brace '{' = .opening () := if_neg hmal
  have hafter : (Mode.names P).after '{' = .names {} := if_neg hmal
  rw [hs _ _ rfl]
  simp only [Place.next, hbrace, hafter, Char.reduceEq, if_false]

/-- A move leads to a place in the same section, and its errors are placed: an error is reported
with the line of the character at which it is found. -/
theorem Move.stands {change : Option (Text × Text)} (hmove : Move P t change P' t')
    (h : At p node P t) (hs : Stands s p P t) :
    ∃ p' c, Reaches p p' ∧ At p' (applyChange node change) P' t' ∧ Stands (s.run c) p' P' t' ∧
      ∀ r, Traced (s.run c) p' r t' → Traced s p r t := by
  obtain ⟨p', hgo, hp'⟩ := hmove.goes h
  obtain ⟨ch, u, rfl, hbrace, hpass⟩ := hmove.passes
  have hnext := hs.reads ch u rfl
  have hsame : (s.next ch).starts = s.starts := by
    rw [hnext]
    exact Place.next_starts_of_atom hbrace
  obtain ⟨c, rfl, hreads, hstarts⟩ := hpass.run (s := s.next ch) (by rw [hnext]; rfl)
  rw [hsame, ← Place.run_cons] at hstarts
  rw [← Place.run_cons] at hreads
  have hreach : Reaches p p' := by
    rcases hgo with hgo | ⟨_, _, _, _, hgo⟩
    · exact hgo.reaches
    · exact hgo.reaches
  refine ⟨p', ch :: c, hreach, hp', hs.behind hreach h hp' rfl hreads hstarts, ?_⟩
  intro r hrest
  rw [← List.cons_append]
  rcases hgo with hgo | ⟨ch', u, hcons, hne, hgo⟩
  · exact hrest.append hstarts (hgo.output.trans (List.append_nil _).symm)
      (fun e he => absurd he List.not_mem_nil)
  · -- the error stands at the first character
    obtain ⟨e, hout, hcur, hleft⟩ := hgo.output
    cases hcons
    refine hrest.append hstarts hout ?_
    intro e' he'
    rw [List.mem_singleton] at he'
    subst he'
    have hline : (s.run [ch]).line = s.line := if_neg hne
    have hstart : (s.run [ch]).start = s.start := congrArg (List.headD · 0) hsame
    exact ⟨[ch], congrArg (ch :: ·) hleft.symm, by rw [hline, hstart, hcur, hs.line]⟩

/-- A parser that stops where it is has nothing to trace. -/
theorem traced_nil {es : List ErrorReport} (hend : p'.bEnd = false) (htext : p'.strText = [])
    (hout : p'.output = p.output ++ es) (hes : ∀ e ∈ es, Placed s t e) : Traced s p p' t := by
  refine ⟨⟨es, hout, hes⟩, t, ?_, ?_⟩
  · rw [htext, List.append_nil]
  · rw [hend]
    exact fun h => absurd h Bool.false_ne_true

/-- The parser traces the places of its text. By induction on the length of the text, over
`move_cases`: a section uses the statement for its inner parser and again for what is behind it. -/
theorem At.traced (h : At p node P t) (hs : Stands s p P t) :
    ∃ r, Evals parseLoop p r ∧ Traced s p r t := by
  -- on the length of the text: moves and sections make it shorter
  induction hn : t.length using Nat.strong_induction_on generalizing p node P t s with
  | _ n ih =>
  rcases move_cases P t with rfl | ⟨t, rfl⟩ | ⟨t, rfl, hmal⟩ | ⟨change, P', t', hmove⟩
  · exact ⟨p, h.evals_nil, traced_nil h.bEnd h.strText (List.append_nil _).symm
      (fun e he => absurd he List.not_mem_nil)⟩
  · obtain ⟨r, hr, -, htext, hout⟩ := h.evals_close
    refine ⟨r, hr, ⟨[], hout.trans (List.append_nil _).symm, ?_⟩, ['}'],
      congrArg ('}' :: ·) htext.symm, ?_⟩
    · exact fun e he => absurd he List.not_mem_nil
    · rw [Place.run_cons, hs.reads _ _ rfl]
      exact fun _ => ⟨rfl, rfl⟩
  · rw [List.length_cons] at hn
    obtain ⟨q, hq, hzero, hqout, hreaches⟩ := h.brace hmal
    have hnext := Place.next_brace hs.reads hmal
    have hstands : Stands (s.next '{') q {} t := by
      rw [hnext]
      exact ⟨Place.reads_of_mode rfl t, by rw [hzero, Nat.zero_add]; rfl⟩
    obtain ⟨r₀, hr₀, ⟨es, hout₀, hes⟩, c, htext, hclosed⟩ := ih t.length (by omega) hq hstands rfl
    obtain ⟨p', hreach, hout, hp'⟩ := hreaches r₀ hr₀
    rw [hqout, ← hout] at hout₀
    have hplaced : ∀ e ∈ es, Placed s ('{' :: t) e := fun e he => (hes e he).append (c := ['{'])
    obtain ⟨fuel, hloop⟩ := hr₀
    obtain ⟨_, _, hstop⟩ := parseLoop_takes hq.bEnd hq.errorID hloop
    by_cases hend : r₀.bEnd = true
    · -- the section is closed, and the outer one is open again
      obtain ⟨hmode, hstarts⟩ := hclosed hend
      rw [hnext, List.tail_cons, ← hnext, ← Place.run_cons] at hstarts
      rw [← Place.run_cons] at hmode
      have hsplit : '{' :: t = ('{' :: c) ++ r₀.strText := congrArg ('{' :: ·) htext
      obtain ⟨r, hr, hrest⟩ := ih r₀.strText.length
        (by rw [htext, List.length_append] at hn; omega) hp'
        (hs.behind hreach h hp' hsplit (Place.reads_of_mode hmode _) hstarts) rfl
      refine ⟨r, hreach r hr, ?_⟩
      rw [hsplit] at hplaced ⊢
      exact hrest.append hstarts hout₀ hplaced
    · have hnil := hstop.left.resolve_right hend
      rw [hnil] at hp'
      exact ⟨p', hreach p' hp'.evals_nil, traced_nil hp'.bEnd hp'.strText hout₀ hplaced⟩
  · obtain ⟨p', c, hreach, hp', hs', htraced⟩ := hmove.stands h hs
    obtain ⟨r, hr, hrest⟩ := ih t'.length (hn ▸ hmove.length_lt) hp' hs' rfl
    exact ⟨r, hreach r hr, htraced r hrest⟩

/-- The line in an error description is the line in the file exactly if the innermost section that
is open at the error begins on the first line. A nested parser counts its lines from one, so further
down the description is behind by the lines in front of the section. -/
theorem parse_error_lines_iff (t : Text) (node : LZData) :
    ∃ r, ({ strText := t, curNode := node } : CParser).parse = some r ∧
      ∀ e ∈ r.output, ∃ pre, t = pre ++ e.left ∧
        (e.line = 1 + pre.count '\n' ↔ (Place.run {} pre).start = 0) := by
  have hstart : Stands {} ({ strText := t, curNode := node } : CParser).reset {} t :=
    ⟨Place.reads_of_mode rfl t, rfl⟩
  obtain ⟨r, hr, ⟨es, hout, hes⟩, -⟩ := (at_start t node).traced hstart
  refine ⟨r, parse_eq_of_evals hr, ?_⟩
  intro e he
  rw [hout] at he
  obtain ⟨pre, htext, hline⟩ := hes e he
  refine ⟨pre, htext, ?_⟩
  rw [Place.run_line, Nat.zero_add] at hline
  rw [ErrorReport.line]
  omega

/-- The `=` without a name stands on the third line, and the report names the second, since its
section begins on the second line. -/
theorem parse_error_line_nested :
    ¬ ∀ (t : Text) (node : LZData), ∃ r,
      ({ strText := t, curNode := node } : CParser).parse = some r ∧
        ∀ e ∈ r.output, ∃ pre, t = pre ++ e.left ∧ e.line = 1 + pre.count '\n' := by
  intro h
  obtain ⟨r, hr, hlines⟩ := h "\na\x7b\n=\n\x7d".toList ⟨[], [], []⟩
  have hout : (({ strText := "\na\x7b\n=\n\x7d".toList, curNode := ⟨[], [], []⟩ } :
      CParser).parse.map fun r => r.output.map fun e => (e.line, e.left)) =
        some [(2, "\n\x7d".toList)] := by decide
  rw [hr, Option.map_some, Option.some.injEq, List.map_eq_singleton_iff] at hout
  obtain ⟨e, he, hpair⟩ := hout
  rw [Prod.mk.injEq] at hpair
  obtain ⟨pre, htext, hline⟩ := hlines e (by rw [he]; exact List.mem_singleton_self e)
  have hpre : pre = "\na\x7b\n=".toList := by
    rw [hpair.2] at htext
    exact (List.append_left_inj "\n\x7d".toList).mp htext.symm
  rw [hpair.1, hpre] at hline
  revert hline
  decide

end CParser

end OnlineJudger
