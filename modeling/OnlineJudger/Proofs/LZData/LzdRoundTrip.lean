import OnlineJudger.Proofs.LZData.LzdEscape
import OnlineJudger.Proofs.LZData.LzdLoop
import OnlineJudger.Proofs.LZData.ReadWrite

/-!
# `OnlineJudger.Proofs.LZData.LzdRoundTrip`: the parser reads back what the printer wrote

`Printable` describes the trees that the lzd format can carry. `parse_lzdPrint` says that the
parser reads the printed text of such a tree back to the same children.

Between two lines the parser is `Idle`: no name is pending, and no error. `reaches_…` are the
moves that a printed line is made of. `LineParses` says that the lines of one node take the
parser from idle to idle and add the node, and the induction is on `Printable`.
-/

set_option autoImplicit false

namespace OnlineJudger

open Lib

namespace Lzd

/-- The characters of a tag. A slash would make the tag a path when the parser writes it. -/
def isTagChar (ch : Char) : Bool :=
  !(ch == '{' || ch == '}' || ch == '=' || ch == '#' || ch == ';' || ch == '/' || isWhiteSpace ch)

/-- A tag that the parser reads as it stands. -/
structure TagOk (tag : Text) : Prop where
  ne_nil : tag ≠ []
  chars : ∀ ch ∈ tag, isTagChar ch = true

/-- A value that the parser reads as it stands. -/
structure ValueOk (value : Text) : Prop where
  noNewline : '\n' ∉ value
  noBackslash : '\\' ∉ value
  trimmed : Trimmed isWhiteSpace value

/-- The nodes that the format can carry: a value at the leaves only, and no two siblings with
one tag. -/
inductive Printable : LZData → Prop where
  | leaf {tag value : Text} : TagOk tag → ValueOk value → Printable ⟨tag, value, []⟩
  | inner {tag : Text} {children : List LZData} : TagOk tag → children ≠ [] →
      (children.map LZData.tag).Nodup → (∀ c ∈ children, Printable c) →
      Printable ⟨tag, [], children⟩

/-! ### The printed text of one node -/

/-- The line of a leaf. -/
theorem printChildren_leaf (depth : Nat) (tag value : Text) (ds : List LZData) (rest : Text) :
    printChildren depth (⟨tag, value, []⟩ :: ds) ++ rest =
      printTable depth ++ (tag ++ ' ' :: '=' :: ' ' :: (convertValue value ++
        '\n' :: (printChildren depth ds ++ rest))) := by
  have heq : " = ".toList = [' ', '=', ' '] := rfl
  have hnl : "\n".toList = ['\n'] := rfl
  have hzero : ¬ (LZData.mk tag value []).countChildren > 0 := Int.lt_irrefl 0
  rw [printChildren, if_neg hzero, heq, hnl]
  simp only [List.append_assoc, List.cons_append, List.nil_append]

/-- The lines of an inner node. Its value is not printed. -/
theorem printChildren_inner (depth : Nat) (tag value : Text) (c : LZData) (cs ds : List LZData)
    (rest : Text) :
    printChildren depth (⟨tag, value, c :: cs⟩ :: ds) ++ rest =
      printTable depth ++ (tag ++ '\n' :: (printTable depth ++ '{' :: '\n' ::
        (printChildren (depth + 1) (c :: cs) ++ (printTable depth ++ '}' :: '\n' ::
          (printChildren depth ds ++ rest))))) := by
  have hnl : "\n".toList = ['\n'] := rfl
  have hopen : "\x7b\n".toList = ['{', '\n'] := rfl
  have hclose : "\x7d\n".toList = ['}', '\n'] := rfl
  have hpos : (LZData.mk tag value (c :: cs)).countChildren > 0 := by
    simp only [LZData.countChildren, List.length_cons]
    omega
  rw [printChildren, if_pos hpos, hnl, hopen, hclose, print]
  simp only [List.append_assoc, List.cons_append, List.nil_append]

/-! ### Names and values -/

/-- A character of a tag is none of those at which the parser does something else. -/
theorem isTagChar_ne {ch : Char} (h : isTagChar ch = true) :
    ch ≠ '{' ∧ ch ≠ '}' ∧ ch ≠ '=' ∧ ch ≠ '\n' ∧ ¬ (ch = ' ' ∨ ch = '\t') ∧ ch ≠ '#' ∧
      ch ≠ ';' := by
  simp only [isTagChar, isWhiteSpace, Bool.not_eq_true', Bool.or_eq_false_iff, beq_eq_false_iff_ne,
    ne_eq] at h
  simp only [ne_eq, not_or]
  tauto

/-- No blank is in a tag, so none is trimmed. -/
theorem TagOk.trimString_eq {tag : Text} (h : TagOk tag) : trimString tag = tag := by
  have hno : ∀ ch ∈ tag, isWhiteSpace ch = false := by
    intro ch hch
    have := h.chars ch hch
    simp only [isTagChar, Bool.not_eq_true', Bool.or_eq_false_iff] at this
    exact this.2
  refine trim_eq_self ⟨?_, ?_⟩
  · intro ch hch
    exact hno ch (List.mem_of_mem_head? hch)
  · intro ch hch
    exact hno ch (List.mem_of_mem_getLast? hch)

/-- A tag is a path of one segment. -/
theorem TagOk.noSlash {tag : Text} (h : TagOk tag) : '/' ∉ tag :=
  fun hmem => absurd (h.chars _ hmem) (by decide)

/-- A tag does not start with a blank. -/
theorem TagOk.head_ne {tag : Text} (h : TagOk tag) (rest : Text) :
    ∀ ch ∈ (tag ++ rest).head?, ¬ (ch = ' ' ∨ ch = '\t') := by
  obtain ⟨ch, tag, rfl⟩ := List.exists_cons_of_ne_nil h.ne_nil
  intro c hc
  rw [List.cons_append, List.head?_cons, Option.mem_some_iff] at hc
  subst hc
  exact (isTagChar_ne (h.chars ch (List.mem_cons_self ..))).2.2.2.2.1

end Lzd

namespace CParser

/-! ### The moves of a printed line -/

/-- Nothing is pending: that is an error. -/
theorem parseVarName_none {p : CParser} (hvar : p.variable' = []) (hcur : p.curVariable = []) :
    p.parseVarName = ([], p.setError 1) := if_pos ⟨hvar, hcur⟩

/-- A name that a blank or a newline has finished. -/
theorem parseVarName_variable {p : CParser} (hcur : p.curVariable = [])
    (hvar : Lzd.TagOk p.variable') : p.parseVarName = (p.variable', p) := by
  simp only [parseVarName, hcur, hvar.ne_nil, hvar.trimString_eq, isVarNameValid, ne_eq,
    not_true_eq_false, not_false_eq_true, false_and, and_false, if_false, if_true, reduceCtorEq]

/-- A name that the statement follows at once. -/
theorem parseVarName_curVariable {p : CParser} (hvar : p.variable' = [])
    (hcur : Lzd.TagOk p.curVariable) : p.parseVarName = (p.curVariable, p) := by
  simp only [parseVarName, hvar, hcur.ne_nil, hcur.trimString_eq, isVarNameValid, ne_eq,
    not_true_eq_false, false_and, and_false, if_false, reduceCtorEq]

/-- The parser is inside a section and has no error to report. -/
structure Runs (p : CParser) : Prop where
  bEnd : p.bEnd = false
  errorID : p.errorID = 0

variable {p : CParser} {rest : Text}

/-- A run of characters of a name. By induction on the characters: each of them is added to the
pending name, which is not finished before the run ends. -/
theorem reaches_word (hp : Runs p) {tag : Text} (htag : ∀ ch ∈ tag, Lzd.isTagChar ch = true)
    (htext : p.strText = tag ++ rest) :
    Reaches p { p with strText := rest, curVariable := p.curVariable ++ tag } := by
  induction tag generalizing p with
  | nil =>
    rw [List.append_nil, ← show p.strText = rest from htext]
    exact Reaches.refl p
  | cons ch tag ih =>
    obtain ⟨hbrace, hclose, heq, hnl, hspace, hhash, hsemi⟩ :=
      Lzd.isTagChar_ne (htag ch (List.mem_cons_self ..))
    have hplain : { p with strText := tag ++ rest }.onPlain ch =
        { p with strText := tag ++ rest, curVariable := p.curVariable ++ [ch] } := by
      rw [onPlain, if_neg hclose, if_neg heq, if_neg hnl, if_neg hspace, if_neg hhash, if_neg hsemi]
      rfl
    have hreach : Reaches p { p with
        strText := tag ++ rest, curVariable := p.curVariable ++ [ch] } :=
      reaches_plain htext hp.bEnd hbrace hplain hp.errorID
    refine hreach.trans ?_
    have := ih (p := { p with strText := tag ++ rest, curVariable := p.curVariable ++ [ch] })
      ⟨hp.bEnd, hp.errorID⟩ (fun c hc => htag c (List.mem_cons_of_mem _ hc)) rfl
    simp only [List.append_assoc, List.singleton_append] at this
    exact this

/-- `skipSpace` in front of a text that does not start with a blank. -/
theorem dropWhile_blanks (n : Nat) (hrest : ∀ ch ∈ rest.head?, ¬ (ch = ' ' ∨ ch = '\t')) :
    (printTable n ++ rest).dropWhile (fun ch => ch == ' ' || ch == '\t') = rest := by
  refine dropWhile_append_of_head ?_ ?_
  · intro ch hch
    rw [List.eq_of_mem_replicate hch]
    rfl
  · intro ch hch
    have := hrest ch hch
    simp only [not_or] at this
    simp only [Bool.or_eq_false_iff, beq_eq_false_iff_ne]
    exact this

/-- The indentation of a line. -/
theorem reaches_indent (hp : Runs p) (hcur : p.curVariable = []) {n : Nat}
    (htext : p.strText = printTable n ++ rest)
    (hrest : ∀ ch ∈ rest.head?, ¬ (ch = ' ' ∨ ch = '\t')) :
    Reaches p { p with strText := rest } := by
  cases n with
  | zero =>
    rw [← show p.strText = rest from htext]
    exact Reaches.refl p
  | succ n =>
    have hplain : { p with strText := printTable n ++ rest }.onPlain '\t' =
        { p with strText := rest } := by
      show { p with strText := printTable n ++ rest }.onSpace = _
      simp only [onSpace, hcur, ne_eq, not_true_eq_false, and_false, if_false, skipSpace,
        dropWhile_blanks n hrest]
    exact reaches_plain htext hp.bEnd (by decide) hplain hp.errorID

/-- The blank behind a name. -/
theorem reaches_space (hp : Runs p) (hvar : p.variable' = []) (hcur : p.curVariable ≠ [])
    (htext : p.strText = ' ' :: rest) (hrest : ∀ ch ∈ rest.head?, ¬ (ch = ' ' ∨ ch = '\t')) :
    Reaches p { p with
      strText := rest, variable' := p.curVariable, varLine := p.curLine, curVariable := [] } := by
  have hplain : { p with strText := rest }.onPlain ' ' =
      { p with
        strText := rest, variable' := p.curVariable, varLine := p.curLine, curVariable := [] } := by
    have hskip : rest.dropWhile (fun ch => ch == ' ' || ch == '\t') = rest :=
      dropWhile_blanks 0 hrest
    show { p with strText := rest }.onSpace = _
    simp only [onSpace, hvar, hcur, ne_eq, not_true_eq_false, not_false_eq_true, and_true,
      if_false, if_true, skipSpace, setVar, hskip]
  exact reaches_plain htext hp.bEnd (by decide) hplain hp.errorID

/-- An assignment to the pending name. -/
theorem reaches_equal (hp : Runs p) (hvar : Lzd.TagOk p.variable') (hcur : p.curVariable = [])
    {text value : Text} (htext : p.strText = '=' :: text)
    (hvalue : getAStrLoop text = (value, rest)) :
    Reaches p { p with
      strText := rest, variable' := [],
      curNode := (p.curNode.write p.variable' (trimString value)).1 } := by
  have hplain : { p with strText := text }.onPlain '=' =
      { p with
        strText := rest, variable' := [],
        curNode := (p.curNode.write p.variable' (trimString value)).1 } := by
    show { p with strText := text }.onEqual = _
    have hname := parseVarName_variable (p := { p with strText := text }) hcur hvar
    have hno : ¬ { p with strText := text }.clearNames.error = true := by
      rw [error, clearNames, hp.errorID]
      decide
    simp only [onEqual, hname, if_neg hno]
    simp only [getAStr, clearNames, hvalue, hcur]
  exact reaches_plain htext hp.bEnd (by decide) hplain hp.errorID

/-- The end of a line with a name in it. -/
theorem reaches_return_name (hp : Runs p) (hvar : p.variable' = [])
    (hcur : Lzd.TagOk p.curVariable) (htext : p.strText = '\n' :: rest) :
    Reaches p { p with
      strText := rest, variable' := p.curVariable, varLine := p.curLine, curVariable := [],
      curLine := p.curLine + 1 } := by
  have hplain : { p with strText := rest }.onPlain '\n' =
      { p with
        strText := rest, variable' := p.curVariable, varLine := p.curLine, curVariable := [],
        curLine := p.curLine + 1 } := by
    show { p with strText := rest }.onReturn = _
    have hname := parseVarName_curVariable (p := { p with strText := rest }) hvar hcur
    have hno : ¬ { p with strText := rest }.clearNames.error = true := by
      rw [error, clearNames, hp.errorID]
      decide
    simp only [onReturn, hname, if_neg hno]
    simp only [clearNames, setVar]
  exact reaches_plain htext hp.bEnd (by decide) hplain hp.errorID

/-- Between two lines: no name is pending. -/
structure Idle (p : CParser) : Prop extends Runs p where
  variable' : p.variable' = []
  curVariable : p.curVariable = []

/-- The end of a line with no name pending. The error that `parseVarName` sets is cleared. -/
theorem reaches_return (hp : Idle p) (htext : p.strText = '\n' :: rest) :
    Reaches p { p with strText := rest, curLine := p.curLine + 1 } := by
  have hplain : { p with strText := rest }.onPlain '\n' =
      { p with strText := rest, curLine := p.curLine + 1 } := by
    show { p with strText := rest }.onReturn = _
    have hname := parseVarName_none (p := { p with strText := rest }) hp.variable' hp.curVariable
    have herr : ({ p with strText := rest }.setError 1).clearNames.error = true := rfl
    simp only [onReturn, hname, if_pos herr]
    simp only [setError, clearNames, hp.errorID, hp.variable', hp.curVariable]
  exact reaches_plain htext hp.bEnd (by decide) hplain hp.errorID

/-- The end of a section. -/
theorem reaches_close (hp : Runs p) (htext : p.strText = '}' :: rest) :
    Reaches p { p with strText := rest, bEnd := true } :=
  reaches_plain htext hp.bEnd (by decide) rfl hp.errorID

/-! ### The lines of a node -/

/-- An assignment to a tag that is not there yet adds a child. -/
theorem write_new {d : LZData} {tag : Text} (hslash : '/' ∉ tag)
    (hnew : tag ∉ d.children.map LZData.tag) (value : Text) :
    (d.write tag value).1 = d.addChild ⟨tag, value, []⟩ := by
  have hfind : d.findTag tag = none := by
    rw [LZData.findTag, List.findIdx?_eq_none_iff]
    intro c hc
    refine beq_eq_false_iff_ne.mpr ?_
    rintro rfl
    exact hnew (List.mem_map_of_mem hc)
  rw [LZData.write]
  split
  · rw [LZData.findChild_of_none hfind, if_neg (by decide)]
  · next pos hpos =>
    rw [findFirstOf_eq_none.mpr hslash] at hpos
    simp only [reduceCtorEq] at hpos

/-- The parser reads the lines of a node and has one child more. It is idle before and after, so
nodes can follow one another, and the children have other tags, so the node is a new one. -/
def LineParses (d : LZData) : Prop :=
  ∀ (depth : Nat) (ds : List LZData) (rest : Text) (p : CParser), Idle p →
    p.strText = Lzd.printChildren depth (d :: ds) ++ rest →
    d.tag ∉ p.curNode.children.map LZData.tag →
    ∃ p', Reaches p p' ∧ Idle p' ∧ p'.strText = Lzd.printChildren depth ds ++ rest ∧
      p'.curNode = p.curNode.addChild d

/-- The lines of nodes in a row. By induction on the nodes, with the children that are already
there. -/
theorem reaches_printChildren {ds : List LZData} (h : ∀ d ∈ ds, LineParses d) (depth : Nat)
    (rest : Text) {p : CParser} (hp : Idle p)
    (htext : p.strText = Lzd.printChildren depth ds ++ rest)
    (hnodup : ((p.curNode.children ++ ds).map LZData.tag).Nodup) :
    ∃ p', Reaches p p' ∧ Idle p' ∧ p'.strText = rest ∧
      p'.curNode = { p.curNode with children := p.curNode.children ++ ds } := by
  induction ds generalizing p with
  | nil => exact ⟨p, Reaches.refl p, hp, htext, by rw [List.append_nil]; cases p.curNode; rfl⟩
  | cons d ds ih =>
    -- the tags differ, so `write` appends and overwrites nothing
    have hnew : d.tag ∉ p.curNode.children.map LZData.tag := by
      rw [List.map_append, List.map_cons, List.nodup_append] at hnodup
      exact fun hmem => hnodup.2.2 _ hmem _ (List.mem_cons_self ..) rfl
    obtain ⟨p₁, hreach, hp₁, htext₁, hnode₁⟩ :=
      h d (List.mem_cons_self ..) depth ds rest p hp htext hnew
    have hchildren : p₁.curNode.children ++ ds = p.curNode.children ++ d :: ds := by
      rw [hnode₁, LZData.addChild, List.append_assoc, List.singleton_append]
    obtain ⟨p₂, hreach', hp₂, htext₂, hnode₂⟩ :=
      ih (fun c hc => h c (List.mem_cons_of_mem _ hc)) hp₁ htext₁ (by rw [hchildren]; exact hnodup)
    refine ⟨p₂, hreach.trans hreach', hp₂, htext₂, ?_⟩
    rw [hnode₂, hchildren, hnode₁]
    rfl

/-- The blank that the printer puts in front of a value is trimmed, and the value is not. -/
theorem trimString_value {value : Text} (h : Lzd.ValueOk value) :
    trimString (' ' :: value) = value := by
  have hblank : ∀ c ∈ [' '], isWhiteSpace c = true := List.all_eq_true.mp rfl
  have htrim := trim_append hblank (List.forall_mem_nil _) h.trimmed
  rwa [List.append_nil] at htrim

/-- The line of a leaf: its indentation, its tag, a blank, and the assignment. -/
theorem lineParses_leaf {tag value : Text} (htag : Lzd.TagOk tag) (hvalue : Lzd.ValueOk value) :
    LineParses ⟨tag, value, []⟩ := by
  rintro depth ds rest ⟨_, node, _, _, _, _, _, _, _, _⟩ ⟨⟨rfl, rfl⟩, rfl, rfl⟩ htext hnew
  have hblank : getAStrLoop (' ' :: (convertValue value ++
      '\n' :: (Lzd.printChildren depth ds ++ rest))) =
      (' ' :: value, '\n' :: (Lzd.printChildren depth ds ++ rest)) := by
    rw [getAStrLoop_cons rfl (by decide),
      getAStrLoop_convertValue hvalue.noNewline (noFalseEscape_of_not_mem hvalue.noBackslash)]
  rw [Lzd.printChildren_leaf] at htext
  -- indentation, name, blank, value, end of line
  have h := reaches_indent ⟨rfl, rfl⟩ rfl htext (htag.head_ne _)
  have h := h.trans (reaches_word ⟨rfl, rfl⟩ htag.chars rfl)
  have h := h.trans (reaches_space ⟨rfl, rfl⟩ rfl htag.ne_nil rfl (by simp))
  have h := h.trans (reaches_equal ⟨rfl, rfl⟩ htag rfl rfl hblank)
  have h := h.trans (reaches_return ⟨⟨rfl, rfl⟩, rfl, rfl⟩ rfl)
  refine ⟨_, h, ⟨⟨rfl, rfl⟩, rfl, rfl⟩, rfl, ?_⟩
  simp only [List.nil_append]
  rw [write_new (htag.noSlash) hnew, trimString_value hvalue]

/-- The text of a section, from behind its opening brace to its closing brace. Its lines are read
one by one, and no two of them have the same tag, so each adds a child. -/
theorem evals_section {children : List LZData} (h : ∀ c ∈ children, LineParses c)
    (hnodup : (children.map LZData.tag).Nodup) (depth : Nat) (rest : Text) {p : CParser}
    (hp : Idle p) (hnode : p.curNode.children = [])
    (htext : p.strText = '\n' :: (Lzd.printChildren (depth + 1) children ++
      (printTable depth ++ '}' :: rest))) :
    ∃ r, Evals parseLoop p r ∧ r.strText = rest ∧
      r.curNode = { p.curNode with children := children } := by
  have hreturn := reaches_return hp htext
  obtain ⟨p', hlines, hp', htext', hnode'⟩ := reaches_printChildren h (depth + 1)
    (printTable depth ++ '}' :: rest)
    (p := { p with
      strText := Lzd.printChildren (depth + 1) children ++ (printTable depth ++ '}' :: rest),
      curLine := p.curLine + 1 })
    ⟨⟨hp.bEnd, hp.errorID⟩, hp.variable', hp.curVariable⟩ rfl
    (by rw [hnode, List.nil_append]; exact hnodup)
  have hindent := reaches_indent hp'.toRuns hp'.curVariable htext' (by simp)
  have hclose := reaches_close (p := { p' with strText := '}' :: rest })
    ⟨hp'.bEnd, hp'.errorID⟩ rfl
  refine ⟨_, hreturn _ (hlines _ (hindent _ (hclose _ (evals_end (.inr rfl))))), rfl, ?_⟩
  rw [hnode', hnode, List.nil_append]

/-- The lines of an inner node: its tag, and a section that an inner parser reads. The lines of its
children parse by hypothesis, which is how the induction over the tree goes on. -/
theorem lineParses_inner {tag : Text} {children : List LZData} (htag : Lzd.TagOk tag)
    (hne : children ≠ []) (hnodup : (children.map LZData.tag).Nodup)
    (h : ∀ c ∈ children, LineParses c) : LineParses ⟨tag, [], children⟩ := by
  rintro depth ds rest ⟨_, node, _, _, _, _, _, _, _, output⟩ ⟨⟨rfl, rfl⟩, rfl, rfl⟩ htext -
  obtain ⟨parser, hparser, hrest, hnode⟩ := evals_section h hnodup depth
    ('\n' :: (Lzd.printChildren depth ds ++ rest))
    (p := {
      strText := '\n' :: (Lzd.printChildren (depth + 1) children ++
        (printTable depth ++ '}' :: '\n' :: (Lzd.printChildren depth ds ++ rest)))
      curNode := ⟨tag, [], []⟩
      output := output }) ⟨⟨rfl, rfl⟩, rfl, rfl⟩ rfl rfl
  obtain ⟨c, cs, rfl⟩ := List.exists_cons_of_ne_nil hne
  rw [Lzd.printChildren_inner] at htext
  -- indentation, name, end of line, indentation, the section, end of line
  have hwalk := reaches_indent ⟨rfl, rfl⟩ rfl htext (htag.head_ne _)
  have hwalk := hwalk.trans (reaches_word ⟨rfl, rfl⟩ htag.chars rfl)
  have hwalk := hwalk.trans (reaches_return_name ⟨rfl, rfl⟩ rfl htag rfl)
  have hwalk := hwalk.trans (reaches_indent ⟨rfl, rfl⟩ rfl rfl (by simp))
  have hwalk := hwalk.trans
    (reaches_brace rfl rfl (parseVarName_variable rfl htag) rfl hparser)
  have hwalk := hwalk.trans (reaches_return ⟨⟨rfl, rfl⟩, rfl, rfl⟩ hrest)
  refine ⟨_, hwalk, ⟨⟨rfl, rfl⟩, rfl, rfl⟩, rfl, ?_⟩
  simp only [leave, clearNames, hnode]

/-- The lines of a node that can be printed, by induction on the tree. -/
theorem lineParses_of_printable {d : LZData} (h : Lzd.Printable d) : LineParses d := by
  induction h with
  | leaf htag hvalue => exact lineParses_leaf htag hvalue
  | inner htag hne hnodup _ ih => exact lineParses_inner htag hne hnodup ih

/-- A run on a printed tree adds its children to a fresh root. -/
theorem exists_parse_print {root fresh : LZData} (hnodup : (root.children.map LZData.tag).Nodup)
    (h : ∀ d ∈ root.children, Lzd.Printable d) (hfresh : fresh.children = []) :
    ∃ p, parse { strText := Lzd.print 0 root, curNode := fresh } = some p ∧
      p.curNode = { fresh with children := root.children } := by
  obtain ⟨tag, value, children⟩ := root
  obtain ⟨p, hreach, -, htext, hnode⟩ := reaches_printChildren
    (fun d hd => lineParses_of_printable (h d hd)) 0 []
    (p := { strText := Lzd.print 0 ⟨tag, value, children⟩, curNode := fresh })
    ⟨⟨rfl, rfl⟩, rfl, rfl⟩ (List.append_nil _).symm (by rw [hfresh, List.nil_append]; exact hnodup)
  refine ⟨p, parse_eq_of_evals (hreach _ (evals_end (.inl htext))), ?_⟩
  rw [hnode, hfresh, List.nil_append]

/-- The parser reads a printed tree back into a fresh root, to the same children, for a tree of any
depth whose tags and values the format can carry. The proof follows the printer: each child is one
run of the state machine, and a section is a nested parser. -/
theorem parse_lzdPrint (root fresh : LZData) (hnodup : (root.children.map LZData.tag).Nodup)
    (h : ∀ d ∈ root.children, Lzd.Printable d) (hfresh : fresh.children = []) :
    ∃ p, parse { strText := Lzd.print 0 root, curNode := fresh } = some p ∧
      p.curNode.children = root.children := by
  obtain ⟨p, hp, hnode⟩ := exists_parse_print hnodup h hfresh
  exact ⟨p, hp, by rw [hnode]⟩

/-- A tree with escaped characters in a value, and a section in a section. The printed text has a
backslash in front of each of the three characters. -/
theorem parse_lzdPrint_escaped :
    ∃ p, parse
        { strText := Lzd.print 0 ⟨"root".toList, [],
            [⟨"a".toList, "x#y; {=}".toList, []⟩,
              ⟨"b".toList, [], [⟨"c".toList, [], [⟨"d".toList, [], []⟩]⟩]⟩]⟩
          curNode := ⟨"root".toList, [], []⟩ } = some p ∧
      p.curNode.children = [⟨"a".toList, "x#y; {=}".toList, []⟩,
        ⟨"b".toList, [], [⟨"c".toList, [], [⟨"d".toList, [], []⟩]⟩]⟩] := by
  have htag : ∀ c ∈ "abcd".toList, Lzd.TagOk [c] := by
    intro c hc
    exact ⟨List.cons_ne_nil _ _, fun d hd => List.mem_singleton.mp hd ▸
      List.all_eq_true.mp (show "abcd".toList.all Lzd.isTagChar = true by decide) c hc⟩
  refine parse_lzdPrint _ _ (by decide) ?_ rfl
  intro d hd
  simp only [List.mem_cons, List.not_mem_nil, or_false] at hd
  rcases hd with rfl | rfl
  · exact .leaf (htag 'a' (by decide)) (by constructor <;> decide)
  · refine .inner (htag 'b' (by decide)) (by decide) (by decide) ?_
    intro d hd
    rw [List.mem_singleton.mp hd]
    refine .inner (htag 'c' (by decide)) (by decide) (by decide) ?_
    intro d hd
    rw [List.mem_singleton.mp hd]
    exact .leaf (htag 'd' (by decide)) (by constructor <;> decide)

end CParser

end OnlineJudger
