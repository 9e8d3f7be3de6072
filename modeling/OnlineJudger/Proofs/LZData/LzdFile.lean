import OnlineJudger.Proofs.LZData.LzdLineEnds
import OnlineJudger.Proofs.LZData.LzdRoundTrip
import OnlineJudger.Proofs.LZData.XmlFile

/-!
# `OnlineJudger.Proofs.LZData.LzdFile`: an lzd tree that is saved and loaded again

`save` writes in text mode, and the parser reads a carriage return as a character of a name. It does
harm where a name is carried over the end of a line. The printer puts a name at the end of its line,
so no name in a printed text is carried (`clean_printChildren`).

The parser gets the address of the buffer only. `load_saved` says what it loads when a NUL stands
behind the buffer, and that it reads behind the memory when there is none.
-/

set_option autoImplicit false

namespace OnlineJudger

open Lib

namespace CParser

/-! ### The names in a printed text -/

/-- No section and no assignment in the text takes a carried name. -/
def Clean (depth : ℕ) (P : Pending) (t : Text) : Prop :=
  ∀ Q ∈ (scan depth (.names P) t).1, ¬ Q.Carried

variable {depth : ℕ} {P : Pending} {t : Text}

/-- A tag can be written, so its characters are characters of a name. -/
theorem isNameChar_of_isTagChar {ch : Char} (h : Lzd.isTagChar ch = true) :
    isNameChar ch = true := by
  obtain ⟨hopen, hclose, hequal, hnewline, hblank, hcomment, hend⟩ := Lzd.isTagChar_ne h
  have hcases := char_cases ch
  tauto

/-- The tabulators in front of a line, where no name has begun. -/
theorem Clean.indent (h : Clean depth P t) (hcur : P.curVariable = [])
    (hhead : ∀ ch ∈ t.head?, ¬ (ch = ' ' ∨ ch = '\t')) (n : ℕ) :
    Clean depth P (printTable n ++ t) := by
  rw [Clean, (passes_blanks hcur _).scan_eq, behindBlanks, dropWhile_blanks n hhead]
  exact h

/-- A tag: its characters are put to the name, and nothing is taken yet. -/
theorem Clean.word {tag : Text} (h : Clean depth { P with curVariable := P.curVariable ++ tag } t)
    (htag : ∀ ch ∈ tag, Lzd.isTagChar ch = true) : Clean depth P (tag ++ t) := by
  induction tag generalizing P with
  | nil =>
    rw [List.append_nil] at h
    exact h
  | cons ch tag ih =>
    have hch := isNameChar_of_isTagChar (htag ch (List.mem_cons_self ..))
    have hne := ne_of_isNameChar hch
    have hhead : (Mode.names P).head ch = [] := by
      show P.head ch = []
      rw [Pending.head, if_neg (by simp [hne])]
    rw [List.cons_append, Clean, scan_atom (Pending.brace_other P hch), hhead, List.nil_append,
      Mode.after_names, Pending.next_other P hch]
    refine ih ?_ fun c hc => htag c (List.mem_cons_of_mem _ hc)
    rw [Pending.add, List.append_assoc]
    exact h

/-- The end of a line. What comes behind it is looked at with the mark that the line has ended. -/
theorem Clean.newline (h : Clean depth (P.newline true) t) : Clean depth P ('\n' :: t) := by
  rw [Clean, scan_atom (m := .names P) rfl]
  exact h

/-- A name that no line end has touched is not carried. -/
theorem not_carried (h : P.carried = false) : ¬ P.Carried := by
  intro hP
  have hcarried := hP.1
  rw [h] at hcarried
  cases hcarried

/-- Behind a name, its value and the end of the line. The assignment itself takes the name, so the
name must not be a carried one. -/
theorem Clean.equal {value : Text} (h : Clean depth {} t) (hmal : ¬ P.Malformed)
    (hcarried : P.carried = false) (hvalue : (getAStrLoop value).2 = '\n' :: t) :
    Clean depth P ('=' :: value) := by
  rw [Clean, scan_equal hmal, (passes_value value).scan_eq, hvalue]
  exact List.forall_mem_cons.mpr ⟨not_carried hcarried, h.newline⟩

/-- A section takes its name at the brace, and what is in it starts without one. -/
theorem Clean.brace (h : Clean (depth + 1) {} t) (hmal : ¬ P.Malformed)
    (hcarried : P.carried = false) : Clean depth P ('{' :: t) := by
  rw [Clean, scan_brace hmal]
  exact List.forall_mem_cons.mpr ⟨not_carried hcarried, h⟩

/-- The brace that closes a section ends the name in it, if there is one. -/
theorem Clean.close (h : Clean depth {} t) : Clean (depth + 1) P ('}' :: t) := by
  rw [Clean, scan_closing_succ (m := .names P) (a := ()) rfl]
  exact h

/-- The lines of a node end without a name, whatever the depth and whatever follows them. -/
def LineClean (d : LZData) : Prop :=
  ∀ depth n ds rest, Clean depth {} (Lzd.printChildren n ds ++ rest) →
    Clean depth {} (Lzd.printChildren n (d :: ds) ++ rest)

/-- The lines of several nodes one behind the other. By induction on the nodes. -/
theorem clean_printChildren {ds : List LZData} (h : ∀ d ∈ ds, LineClean d) (depth n : ℕ)
    {rest : Text} (hrest : Clean depth {} rest) :
    Clean depth {} (Lzd.printChildren n ds ++ rest) := by
  induction ds with
  | nil => exact hrest
  | cons d ds ih =>
    exact h d (List.mem_cons_self ..) _ _ _ _ (ih fun c hc => h c (List.mem_cons_of_mem _ hc))

/-- A leaf is one line: its tag, an equality sign and its value. In the value the characters with a
meaning of their own are escaped, so none of them ends the line. -/
theorem lineClean_leaf {tag value : Text} (htag : Lzd.TagOk tag) (hvalue : Lzd.ValueOk value) :
    LineClean ⟨tag, value, []⟩ := by
  intro depth n ds rest hrest
  have hread : (getAStrLoop (' ' :: (convertValue value ++
      '\n' :: (Lzd.printChildren n ds ++ rest)))).2 =
      '\n' :: (Lzd.printChildren n ds ++ rest) := by
    rw [getAStrLoop_cons rfl (by decide),
      getAStrLoop_convertValue hvalue.noNewline (noFalseEscape_of_not_mem hvalue.noBackslash)]
  rw [Lzd.printChildren_leaf]
  refine Clean.indent (Clean.word ?_ htag.chars) rfl (htag.head_ne _) n
  -- behind the name
  have hmal : ¬ ({ variable' := tag } : Pending).Malformed := by
    rintro (hnone | htwo)
    · exact htag.ne_nil hnone.1
    · exact htwo.2.1 rfl
  have hequal := Clean.equal hrest hmal rfl hread
  rw [Clean, scan_atom (m := .names _) rfl]
  have hafter : (Mode.names { curVariable := [] ++ tag }).after ' ' =
      .names { variable' := tag } := by
    rw [Mode.after_names, Pending.next_blank _ (.inl rfl), if_neg fun htwo => htwo.1 rfl]
    exact congrArg _ (if_neg htag.ne_nil)
  rw [hafter]
  exact hequal

/-- An inner node is a line with its tag and the brace, the lines of its children, and the closing
brace. -/
theorem lineClean_inner {tag : Text} {children : List LZData} (htag : Lzd.TagOk tag)
    (hne : children ≠ []) (h : ∀ c ∈ children, LineClean c) : LineClean ⟨tag, [], children⟩ := by
  intro depth n ds rest hrest
  obtain ⟨c, cs, rfl⟩ := List.exists_cons_of_ne_nil hne
  rw [Lzd.printChildren_inner]
  refine Clean.indent (Clean.word (Clean.newline ?_) htag.chars) rfl (htag.head_ne _) n
  -- the name is the last thing on its line
  have hnot : ¬ ({ curVariable := [] ++ tag } : Pending).Malformed := by
    rintro (hnone | htwo)
    · exact htag.ne_nil hnone.2
    · exact htwo.1 rfl
  have hname : ({ curVariable := [] ++ tag } : Pending).newline true =
      { variable' := tag, sameLine := false, carried := false } := by
    rw [Pending.newline, if_neg hnot, Pending.name]
    simp [htag.trimString_eq, htag.ne_nil]
  rw [hname]
  have hmal :
      ¬ ({ variable' := tag, sameLine := false, carried := false } : Pending).Malformed := by
    rintro (hnone | htwo)
    · exact htag.ne_nil hnone.1
    · exact htwo.2.1 rfl
  refine Clean.indent (Clean.brace (Clean.newline ?_) hmal rfl) rfl (by simp) n
  -- the section
  refine clean_printChildren h (depth + 1) (n + 1) (Clean.indent ?_ rfl (by simp) n)
  exact Clean.close (Clean.newline hrest)

/-- A node that can be printed, by induction on the tree. -/
theorem lineClean_of_printable {d : LZData} (h : Lzd.Printable d) : LineClean d := by
  induction h with
  | leaf htag hvalue => exact lineClean_leaf htag hvalue
  | inner htag hne _ _ ih => exact lineClean_inner htag hne ih

/-- The parser reads a printed tree back with the line ends of a file. No name of the text is
carried, and of such a text the carriage returns change nothing. -/
theorem exists_parse_textMode {root fresh : LZData} (hnodup : (root.children.map LZData.tag).Nodup)
    (h : ∀ d ∈ root.children, Lzd.Printable d) (hfresh : fresh.children = []) :
    ∃ p, parse { strText := textMode (Lzd.print 0 root), curNode := fresh } = some p ∧
      p.curNode = { fresh with children := root.children } := by
  have hclean : Clean 0 {} (Lzd.print 0 root) := by
    obtain ⟨tag, value, children⟩ := root
    have hend : Clean 0 {} [] := fun Q hQ => by cases hQ
    have hlines := clean_printChildren (fun d hd => lineClean_of_printable (h d hd)) 0 0 hend
    rw [List.append_nil] at hlines
    exact hlines
  obtain ⟨r, r', hr, hr', hnode, -⟩ :=
    exists_evals_crlf (at_start _ fresh) (twin_start _ fresh) hclean
  obtain ⟨p, hp, hparsed⟩ := exists_parse_print hnodup h hfresh
  rw [parse_eq_of_evals hr, Option.some.injEq] at hp
  exact ⟨r', parse_eq_of_evals hr', by rw [hnode, hp, hparsed]⟩

end CParser

/-! ### Loading what was saved -/

namespace Lzd

/-- A tree is printed as the empty text exactly if it has no children. -/
theorem print_eq_nil {d : LZData} (n : ℕ) : print n d = [] ↔ d.children = [] := by
  obtain ⟨tag, value, children⟩ := d
  rw [print]
  cases children with
  | nil => exact iff_of_true rfl rfl
  | cons c cs =>
    refine iff_of_false (fun hnil => ?_) (List.cons_ne_nil c cs)
    rw [printChildren] at hnil
    split_ifs at hnil with hpos
    · simp at hnil
    · simp at hnil

/-- A tree that the format can carry, saved and loaded again. Without children it is an empty file,
and what the load does with it is undefined. Otherwise the parser needs a NUL behind the buffer. If
it stands right there, the children come back. -/
theorem load_saved (d : LZData) (hnodup : (d.children.map LZData.tag).Nodup)
    (h : ∀ c ∈ d.children, Printable c) (hnul : '\x00' ∉ print 0 d)
    (files : Text → Option Text) (fileName after : Text) :
    (d.children = [] →
      createFromFile (save true files fileName d).2 after fileName = some (.error .emptyBuffer)) ∧
    (d.children ≠ [] →
      ('\x00' ∉ after →
        createFromFile (save true files fileName d).2 after fileName = some (.error .overrun)) ∧
      (after.head? = some '\x00' →
        createFromFile (save true files fileName d).2 after fileName =
          some (.ok (some ⟨rootTag, [], d.children⟩)))) := by
  have hfile : (save true files fileName d).2 fileName = some (textMode (print 0 d)) :=
    if_pos rfl
  rw [createFromFile, readFileBuffer, hfile]
  simp only [List.length_eq_zero_iff, textMode_eq_nil, print_eq_nil]
  refine ⟨fun hnil => by rw [if_pos hnil], fun hne => ?_⟩
  rw [if_neg hne]
  have hclean : '\x00' ∉ textMode (print 0 d) := fun hmem =>
    hnul ((mem_textMode (by decide)).mp hmem)
  constructor
  · intro hafter
    show (createFromBuffer _ _).map _ = _
    rw [createFromBuffer, if_neg fun hmem => (List.mem_append.mp hmem).elim hclean hafter]
    rfl
  · intro hafter
    obtain ⟨rest, rfl⟩ : ∃ rest, after = '\x00' :: rest := by
      cases after with
      | nil => cases hafter
      | cons ch rest => exact ⟨rest, by rw [Option.some.inj hafter]⟩
    have hfresh : (⟨rootTag, [], []⟩ : LZData).children = [] := rfl
    obtain ⟨p, hp, hnode⟩ := CParser.exists_parse_textMode hnodup h hfresh
    show (createFromBuffer _ _).map _ = _
    rw [createFromBuffer, if_pos (List.mem_append_right _ List.mem_cons_self), cString_append_nul,
      cString_eq_self hclean]
    show ((CParser.parse _).map _).map _ = _
    rw [hp, Option.map_some, hnode]
    rfl

/-- A value with an escaped character in a section. -/
theorem load_saved_section :
    let d : LZData := ⟨"root".toList, [], [⟨"a".toList, [], [⟨"b".toList, "x#y".toList, []⟩]⟩]⟩
    createFromFile (save true (fun _ => none) "f".toList d).2 ['\x00'] "f".toList =
      some (.ok (some ⟨rootTag, [], d.children⟩)) := by
  intro d
  have hprintable : ∀ c ∈ d.children, Printable c := by
    rw [List.forall_mem_singleton]
    refine .inner ⟨by decide, List.forall_mem_singleton.mpr rfl⟩ (List.cons_ne_nil _ _)
      (by decide) ?_
    rw [List.forall_mem_singleton]
    exact .leaf ⟨by decide, List.forall_mem_singleton.mpr rfl⟩ (by constructor <;> decide)
  exact ((load_saved d (by decide) hprintable (by decide) (fun _ => none) "f".toList
    ['\x00']).2 (List.cons_ne_nil _ _)).2 rfl

end Lzd

end OnlineJudger
