import OnlineJudger.Acm.Utilities
import OnlineJudger.Proofs.LZData.LzdMoves
import OnlineJudger.Proofs.LZData.LzdEscape

/-!
# `OnlineJudger.Proofs.LZData.LzdLineEnds`: the lzd parser and the ends of lines

The parser takes a carriage return for a character of a name. In front of a newline it is
harmless behind a name, because names are trimmed, and behind a value or a comment. Elsewhere it
is a name of its own, and it takes the place of a name that is kept over the end of the line.
Such a name is `Carried`.

* `Twin`: where the run on the text with the other line ends is. The pending names differ by the
  carried one (`Pending.drop`).
* `Move.twin`: each move keeps the two runs side by side, and `exists_evals_crlf` follows for whole
  runs.
* `parse_crlf`: both build the same tree if no section and no assignment takes a carried name.
* `carried_lost`: what the condition of `parse_crlf` keeps out. A statement with a carried name is
  dropped on the other text, so the trees agree then only if the statement adds nothing.
-/

set_option autoImplicit false

namespace OnlineJudger

open Lib

namespace CParser

/-- The same text, with the carriage return of a first newline taken or not. -/
def SameEnd (t u : Text) : Prop := u = textMode t ∨ ∃ t', t = '\n' :: t' ∧ u = '\n' :: textMode t'

/-- A carriage return is skipped with the rest of the line, so behind it both runs stand in front of
the same newline. -/
theorem sameEnd_endOfLine (t : Text) : SameEnd (endOfLine t) (endOfLine (textMode t)) := by
  unfold endOfLine
  induction t with
  | nil => exact .inl rfl
  | cons ch t ih =>
    by_cases hch : ch = '\n'
    · subst hch
      exact .inr ⟨t, rfl, rfl⟩
    · rw [textMode_cons hch, List.dropWhile_cons, List.dropWhile_cons]
      split_ifs
      · exact ih
      · exact .inl (textMode_cons hch t).symm

/-- A comment takes its newline, and with the other line ends it takes the carriage return and
leaves the newline. -/
theorem endOfComment_crlf {w : Text} (hw : '\n' ∉ w) (t : Text) :
    endOfComment (textMode (w ++ '\n' :: t)) = '\n' :: textMode t := by
  unfold endOfComment
  induction w with
  | nil => rfl
  | cons ch w ih =>
    rw [List.mem_cons, not_or] at hw
    have hgo : (!(ch == '\n')) = true := by
      rw [beq_eq_false_iff_ne.mpr (Ne.symm hw.1)]
      rfl
    rw [List.cons_append, textMode_cons (Ne.symm hw.1), List.dropWhile_cons, hgo, if_pos rfl]
    exact ih hw.2

/-- A comment in the last line. -/
theorem endOfComment_crlf_last {t : Text} (h : '\n' ∉ t) : endOfComment (textMode t) = [] := by
  refine endOfComment_last ?_
  rw [textMode, List.mem_flatMap]
  rintro ⟨ch, hch, hmem⟩
  have hne := ne_of_mem_of_not_mem hch h
  rw [if_neg hne, List.mem_singleton] at hmem
  exact hne hmem.symm

/-- Blanks in front of the text. -/
theorem behindBlanks_crlf (t : Text) : behindBlanks (textMode t) = textMode (behindBlanks t) := by
  unfold behindBlanks
  induction t with
  | nil => rfl
  | cons ch t ih =>
    by_cases hch : ch = '\n'
    · subst hch
      rfl
    · rw [textMode_cons hch, List.dropWhile_cons, List.dropWhile_cons]
      split_ifs
      · exact ih
      · exact (textMode_cons hch t).symm

/-- The same value up to a carriage return, and the same text behind it. -/
def SameValue (x y : Text × Text) : Prop :=
  (y.1 = x.1 ∨ y.1 = x.1 ++ ['\r']) ∧ SameEnd x.2 y.2

/-- One more character of the value. -/
theorem SameValue.cons {x y : Text × Text} (h : SameValue x y) (ch : Char) :
    SameValue (ch :: x.1, x.2) (ch :: y.1, y.2) := by
  refine ⟨?_, h.2⟩
  rcases h.1 with h | h
  · exact .inl (congrArg (ch :: ·) h)
  · exact .inr (congrArg (ch :: ·) h)

/-- The end of a value. -/
theorem sameValue_end {ch : Char} (h : isValueEnd ch = true) (t : Text) :
    SameValue (getAStrLoop (ch :: t)) (getAStrLoop (textMode (ch :: t))) := by
  rw [getAStrLoop_end h]
  by_cases hch : ch = '\n'
  · subst hch
    rw [textMode_newline, getAStrLoop_cons rfl (by decide), getAStrLoop_newline]
    exact ⟨.inr rfl, .inr ⟨t, rfl, rfl⟩⟩
  · rw [textMode_cons hch, getAStrLoop_end h]
    exact ⟨.inl rfl, .inl (textMode_cons hch t).symm⟩

/-- A value ends at a newline. -/
theorem ne_newline_of_not_isValueEnd {ch : Char} (h : ¬ isValueEnd ch = true) : ch ≠ '\n' := by
  rintro rfl
  exact h rfl

/-- Behind a character that is not escaped there is none that would be. -/
theorem exists_crlf_cons {next : Char} (h : isEscaped next = false) (t : Text) :
    ∃ ch rest, textMode (next :: t) = ch :: rest ∧ isEscaped ch = false := by
  by_cases hnext : next = '\n'
  · subst hnext
    exact ⟨_, _, textMode_newline t, rfl⟩
  · exact ⟨_, _, textMode_cons hnext t, h⟩

/-- A value. A carriage return may be added to it, if the newline behind it ends the value. By the
cases of `getAStrLoop`. -/
theorem getAStrLoop_crlf (t : Text) : SameValue (getAStrLoop t) (getAStrLoop (textMode t)) := by
  induction t using getAStrLoop.induct with
  | case1 => exact ⟨.inl rfl, .inl rfl⟩
  | case2 ch h => exact sameValue_end h []
  | case3 ch h =>
    have hcrlf : textMode [ch] = [ch] := textMode_cons (ne_newline_of_not_isValueEnd h) []
    rw [hcrlf]
    simp only [getAStrLoop, if_neg h]
    exact ⟨.inl rfl, .inl rfl⟩
  | case4 ch next text h => exact sameValue_end h (next :: text)
  | case5 ch next text h hesc ih =>
    obtain ⟨rfl, hesc⟩ := hesc
    have hnext : next ≠ '\n' := by
      rintro rfl
      cases hesc
    rw [textMode_cons (by decide), textMode_cons hnext, getAStrLoop_escape hesc,
      getAStrLoop_escape hesc]
    exact ih.cons next
  | case6 ch next text h hesc ih =>
    have hend := Bool.eq_false_iff.mpr h
    rw [textMode_cons (ne_newline_of_not_isValueEnd h)]
    by_cases hch : ch = '\\'
    · subst hch
      have hnext : isEscaped next = false := Bool.eq_false_iff.mpr fun h => hesc ⟨rfl, h⟩
      obtain ⟨c, rest, hcrlf, hc⟩ := exists_crlf_cons hnext text
      rw [getAStrLoop_backslash hnext, hcrlf, getAStrLoop_backslash hc, ← hcrlf]
      exact ih.cons _
    · rw [getAStrLoop_cons hend hch, getAStrLoop_cons hend hch]
      exact ih.cons ch

/-- A carriage return behind a text is trimmed. -/
theorem trimString_return (t : Text) : trimString (t ++ ['\r']) = trimString t := by
  simp only [trimString, ltrimString, rtrimString, List.dropWhile_append]
  split_ifs with h
  · rw [List.isEmpty_iff.mp h]
    rfl
  · exact List.rdropWhile_concat_pos _ _ _ rfl

/-- The value that is written to the tree is the same, because it is trimmed. -/
theorem trimString_value_crlf (t : Text) :
    trimString (getAStrLoop (textMode t)).1 = trimString (getAStrLoop t).1 := by
  rcases (getAStrLoop_crlf t).1 with h | h
  · rw [h]
  · rw [h, trimString_return]

/-! ### The pending names -/

namespace Pending

/-- The name at hand was kept over the end of a line, and it was not the last on that line. -/
def Carried (P : Pending) : Prop := P.carried = true ∧ P.curVariable = []

/-- The mark is a truth value. -/
instance (P : Pending) : Decidable P.Carried := by
  unfold Carried
  infer_instance

/-- Without the carried name. -/
def drop (P : Pending) : Pending :=
  if P.carried = true then { P with variable' := [], carried := false } else P

/-- A carried name comes from an earlier line. -/
def Ok (P : Pending) : Prop := P.carried = true → P.sameLine = false

/-- The parser does not tell these apart: it looks at the line of a finished name only if there is
one. -/
def Like (P Q : Pending) : Prop :=
  P.variable' = Q.variable' ∧ P.curVariable = Q.curVariable ∧
    (P.variable' ≠ [] → P.sameLine = Q.sameLine)

/-- Nothing is carried, so nothing is dropped. -/
theorem drop_of_not {P : Pending} (h : P.carried ≠ true) : P.drop = P := if_neg h

/-- A carried name is dropped, and its mark. -/
theorem drop_of_carried {P : Pending} (h : P.carried = true) :
    P.drop = { P with variable' := [], carried := false } := if_pos h

/-- The name at hand is not the carried one. -/
theorem drop_curVariable (P : Pending) : P.drop.curVariable = P.curVariable := by
  rw [drop]
  split_ifs <;> rfl

/-- Two names on one line are not carried. -/
theorem Two.not_carried {P : Pending} (h : P.Two) (hok : P.Ok) : P.carried ≠ true := by
  intro hcarried
  have := h.2.2
  rw [hok hcarried] at this
  cases this

/-- Of two names on one line neither is carried, so dropping makes no difference to that error. -/
theorem two_drop_iff {P : Pending} (hok : P.Ok) : P.drop.Two ↔ P.Two := by
  by_cases hcarried : P.carried = true
  · rw [drop_of_carried hcarried]
    exact iff_of_false (fun h => h.1 rfl) fun h => h.not_carried hok hcarried
  · rw [drop_of_not hcarried]

/-- A name that is not the carried one stays. -/
theorem malformed_drop_iff {P : Pending} (hok : P.Ok) (h : ¬ P.Carried) :
    P.drop.Malformed ↔ P.Malformed := by
  refine or_congr ?_ (two_drop_iff hok)
  by_cases hcarried : P.carried = true
  · have hcur : P.curVariable ≠ [] := fun hcur => h ⟨hcarried, hcur⟩
    rw [drop_of_carried hcarried]
    exact iff_of_false (fun h => hcur h.2) fun h => hcur h.2
  · rw [drop_of_not hcarried]

/-- The name that a statement takes is the same, if it is not a carried one. -/
theorem name_drop {P : Pending} (h : ¬ P.Carried) : P.drop.name = P.name := by
  by_cases hcarried : P.carried = true
  · have hcur : P.curVariable ≠ [] := fun hcur => h ⟨hcarried, hcur⟩
    rw [drop_of_carried hcarried, name, name, if_neg hcur, if_neg hcur]
  · rw [drop_of_not hcarried]

/-- Behind a newline, a name that is kept is from an earlier line. -/
theorem ok_newline (P : Pending) (last : Bool) : (P.newline last).Ok := by
  rw [newline]
  split_ifs
  · exact fun h => absurd h Bool.false_ne_true
  · exact fun _ => rfl

/-- A blank finishes a name of its own line. It is not carried. -/
theorem Ok.blank {P : Pending} (h : P.Ok) : P.blank.Ok := by
  rw [Pending.blank]
  split_ifs
  · exact h
  · exact fun h => absurd h Bool.false_ne_true

/-- Dropping and a blank do not interfere. -/
theorem blank_drop (P : Pending) : P.drop.blank = P.blank.drop := by
  rw [blank, blank, drop_curVariable]
  split_ifs
  · rfl
  · rw [drop_of_not Bool.false_ne_true]

/-- Nor do dropping and a character of a name. -/
theorem add_drop (P : Pending) (ch : Char) : P.drop.add ch = (P.add ch).drop := by
  by_cases hcarried : P.carried = true
  · rw [drop_of_carried hcarried, drop_of_carried (P := P.add ch) hcarried]
    rfl
  · rw [drop_of_not hcarried, drop_of_not (P := P.add ch) hcarried]

/-- Nothing to tell apart. -/
theorem Like.refl (P : Pending) : P.Like P := ⟨rfl, rfl, fun _ => rfl⟩

/-- Two states without a name. -/
theorem Like.of_unnamed {P Q : Pending} (hP : P.Unnamed) (hQ : Q.Unnamed) : P.Like Q :=
  ⟨hP.1.trans hQ.1.symm, hP.2.trans hQ.2.symm, fun h => absurd hP.1 h⟩

/-- At the end of a line without a name, nothing is kept. -/
theorem newline_of_malformed {P : Pending} (h : P.Malformed) (last : Bool) :
    P.newline last = {} := if_pos h

/-- At the end of a line with a name, it is kept, and whether it is carried depends on what came
last. -/
theorem newline_of_not {P : Pending} (h : ¬ P.Malformed) (last : Bool) :
    P.newline last =
      { variable' := P.name
        sameLine := false
        carried := P.curVariable = [] ∧ (last = true ∨ P.carried = true) } := if_neg h

/-- A name is carried over the end of the line. -/
theorem drop_newline_of_carried {P : Pending} {last : Bool} (hcur : P.curVariable = [])
    (hcarried : last = true ∨ P.carried = true) : (P.newline last).drop.Unnamed := by
  by_cases hmal : P.Malformed
  · rw [newline_of_malformed hmal]
    exact ⟨rfl, rfl⟩
  · rw [newline_of_not hmal, drop_of_carried (decide_eq_true ⟨hcur, hcarried⟩)]
    exact ⟨rfl, rfl⟩

/-- No name is carried over the end of the line. -/
theorem drop_newline_of_not {P : Pending} {last : Bool}
    (h : ¬ (P.curVariable = [] ∧ (last = true ∨ P.carried = true))) :
    (P.newline last).drop = P.newline last := by
  by_cases hmal : P.Malformed
  · rw [newline_of_malformed hmal]
    rfl
  · rw [newline_of_not hmal]
    exact drop_of_not fun hcarried => h (of_decide_eq_true hcarried)

/-- A line with nothing but a carriage return has no name that could be kept. -/
theorem newline_unnamed {P : Pending} (hcur : P.curVariable = [] ∨ P.curVariable = ['\r'])
    (hvar : P.curVariable = [] → P.variable' = []) (last : Bool) :
    (P.newline last).Unnamed := by
  by_cases hmal : P.Malformed
  · rw [newline_of_malformed hmal]
    exact ⟨rfl, rfl⟩
  · rw [newline_of_not hmal]
    refine ⟨?_, rfl⟩
    rcases hcur with hcur | hcur
    · exact absurd (.inl ⟨hvar hcur, hcur⟩) hmal
    · simp only [name, hcur]
      rfl

/-- The end of a line behind a comment. -/
theorem newline_drop {P : Pending} (hok : P.Ok) :
    (P.drop.newline false).Like (P.newline false).drop := by
  by_cases h : P.Carried
  · -- the name stays dropped
    refine Like.of_unnamed ?_ (drop_newline_of_carried h.2 (.inr h.1))
    have hcur : P.drop.curVariable = [] := P.drop_curVariable.trans h.2
    refine newline_unnamed (.inl hcur) (fun _ => ?_) false
    rw [drop_of_carried h.1]
  · have hnot : ¬ (P.curVariable = [] ∧ (false = true ∨ P.carried = true)) := by
      rintro ⟨hcur, hcarried | hcarried⟩
      · cases hcarried
      · exact h ⟨hcarried, hcur⟩
    rw [drop_newline_of_not hnot]
    by_cases hmal : P.Malformed
    · rw [newline_of_malformed hmal, newline_of_malformed ((malformed_drop_iff hok h).mpr hmal)]
      exact Like.refl _
    · have hmal' := (malformed_drop_iff hok h).not.mpr hmal
      rw [newline_of_not hmal, newline_of_not hmal', name_drop h]
      exact ⟨rfl, rfl, fun _ => rfl⟩

/-- The end of a line behind a carriage return. The carriage return takes the place of a name that
has not begun, and is trimmed with one that has. -/
theorem newline_return {P : Pending} (hok : P.Ok) :
    ((P.drop.add '\r').newline true).Like (P.newline true).drop := by
  have hadd : (P.drop.add '\r').curVariable = P.curVariable ++ ['\r'] := by
    rw [add, drop_curVariable]
  have hne : (P.drop.add '\r').curVariable ≠ [] := by
    rw [hadd]
    exact List.append_ne_nil_of_right_ne_nil _ (List.cons_ne_nil _ _)
  by_cases hcur : P.curVariable = []
  · -- the carriage return takes the place of the name
    refine Like.of_unnamed ?_ (drop_newline_of_carried hcur (.inl rfl))
    rw [hcur] at hadd
    exact newline_unnamed (.inr hadd) (fun h => absurd h hne) true
  · -- the carriage return is trimmed with the name
    rw [drop_newline_of_not fun h => hcur h.1]
    have hmal : (P.drop.add '\r').Malformed ↔ P.Malformed := by
      have hun : ¬ (P.drop.add '\r').Unnamed := fun h => hne h.2
      have hun' : ¬ P.Unnamed := fun h => hcur h.2
      rw [Malformed, Malformed, or_iff_right hun, or_iff_right hun', ← two_drop_iff hok]
      refine and_congr_right fun _ => ?_
      rw [drop_curVariable]
      exact and_congr_left fun _ => iff_of_true hne hcur
    by_cases hmal' : P.Malformed
    · rw [newline_of_malformed hmal', newline_of_malformed (hmal.mpr hmal')]
      exact Like.refl _
    · have hname : (P.drop.add '\r').name = P.name := by
        rw [name, name, if_neg hne, if_neg hcur, hadd, trimString_return]
      rw [newline_of_not hmal', newline_of_not (hmal.not.mpr hmal'), hname]
      exact ⟨rfl, rfl, fun _ => rfl⟩

end Pending

/-- The parser stands at either of two places that it does not tell apart. -/
theorem At.like {p : CParser} {node : LZData} {P Q : Pending} {t : Text} (h : At p node P t)
    (hlike : P.Like Q) : At p node Q t := by
  obtain ⟨hvar, hcur, hline⟩ := hlike
  refine ⟨⟨h.variable'.trans hvar, h.curVariable.trans hcur, ?_⟩, h.strText, h.curNode, h.bEnd,
    h.errorID⟩
  intro hne
  rw [← hvar] at hne
  rw [← hline hne]
  exact h.sameLine hne

/-! ### Two runs side by side -/

/-- The parser stands at the place of `P` and `t` in the text with the other line ends. Behind a
value or a malformed statement the carriage return of the next newline may be taken already. -/
def Twin (q : CParser) (node : LZData) (P : Pending) (t : Text) : Prop :=
  P.Ok ∧ ∃ u, At q node P.drop u ∧ (u = textMode t ∨ P = {} ∧ SameEnd t u)

variable {p q : CParser} {node : LZData} {P : Pending} {t : Text}

/-- Behind a value or a malformed statement no name is pending. -/
theorem twin_of_sameEnd {u : Text} (hq : At q node {} u) (h : SameEnd t u) : Twin q node {} t :=
  ⟨fun h => absurd h Bool.false_ne_true, u, hq, .inr ⟨rfl, h⟩⟩

/-- At the beginning both runs have read nothing. -/
theorem twin_start (t : Text) (node : LZData) :
    Twin ({ strText := textMode t, curNode := node } : CParser).reset node {} t :=
  twin_of_sameEnd (at_start (textMode t) node) (.inl rfl)

namespace Twin

/-- The text is read. -/
theorem at_nil (h : Twin q node P []) : At q node P.drop [] := by
  obtain ⟨-, u, hq, rfl | ⟨-, rfl | ⟨t', h, -⟩⟩⟩ := h
  · exact hq
  · exact hq
  · cases h

/-- A character that is no newline. -/
theorem at_cons {ch : Char} (hch : ch ≠ '\n') (h : Twin q node P (ch :: t)) :
    At q node P.drop (ch :: textMode t) := by
  rw [← textMode_cons hch]
  obtain ⟨-, u, hq, rfl | ⟨-, rfl | ⟨t', h, -⟩⟩⟩ := h
  · exact hq
  · exact hq
  · cases h
    exact absurd rfl hch

/-- The end of a line. -/
theorem newline (h : Twin q node P ('\n' :: t)) :
    ∃ q', Reaches q q' ∧ Twin q' node (P.newline true) t := by
  -- the carriage return is read as a character of a name
  have hreturn (hok : P.Ok) (hq : At q node P.drop ('\r' :: '\n' :: textMode t)) :
      ∃ q', Reaches q q' ∧ Twin q' node (P.newline true) t := by
    obtain ⟨q', hreach, hq'⟩ := hq.other rfl
    obtain ⟨q'', hreach', hq''⟩ := hq'.newline true
    exact ⟨q'', (hreach.trans hreach').reaches, Pending.ok_newline P true, textMode t,
      hq''.like (Pending.newline_return hok), .inl rfl⟩
  obtain ⟨hok, u, hq, rfl | ⟨rfl, rfl | ⟨t', h, rfl⟩⟩⟩ := h
  · exact hreturn hok hq
  · exact hreturn hok hq
  · -- it is taken already
    cases h
    obtain ⟨q', hreach, hq'⟩ := hq.newline true
    exact ⟨q', hreach.reaches, twin_of_sameEnd hq' (.inl rfl)⟩

end Twin

/-- The move of a parser, made on the text with the other line ends. One case per move: the newline
and the comment are those in which the carriage return counts. -/
theorem Move.twin {change : Option (Text × Text)} {P' : Pending} {t' : Text}
    (h : Move P t change P' t') (hq : Twin q node P t)
    (hfree : ∀ ch t', t = ch :: t' → ch = '{' ∨ ch = '=' → ¬ P.Carried) :
    ∃ q', Reaches q q' ∧ Twin q' (applyChange node change) P' t' := by
  have hok := hq.1
  cases h with
  | newline => exact hq.newline
  | blank t hblank htwo =>
    obtain ⟨q', hreach, hq'⟩ := (hq.at_cons (ne_newline_of_blank hblank)).blank hblank
      ((Pending.two_drop_iff hok).not.mpr htwo)
    rw [Pending.blank_drop] at hq'
    exact ⟨q', hreach.reaches, hok.blank, _, hq', .inl (behindBlanks_crlf t)⟩
  | two t hblank htwo =>
    obtain ⟨q', hreach, hq'⟩ := (hq.at_cons (ne_newline_of_blank hblank)).blank_two hblank
      ((Pending.two_drop_iff hok).mpr htwo)
    exact ⟨q', hreach.reaches, twin_of_sameEnd hq' (sameEnd_endOfLine t)⟩
  | comment t hw =>
    obtain ⟨q', hreach, hq'⟩ := (hq.at_cons (by decide)).comment
    rw [endOfComment_crlf hw] at hq'
    obtain ⟨q'', hreach', hq''⟩ := hq'.newline false
    exact ⟨q'', (hreach.trans hreach').reaches, Pending.ok_newline P false, textMode _,
      hq''.like (Pending.newline_drop hok), .inl rfl⟩
  | lastComment hw =>
    obtain ⟨q', hreach, hq'⟩ := (hq.at_cons (by decide)).comment
    rw [endOfComment_crlf_last hw] at hq'
    exact ⟨q', hreach.reaches, hok, [], hq', .inl rfl⟩
  | semicolon =>
    obtain ⟨q', hreach, hq'⟩ := (hq.at_cons (by decide)).semicolon
    exact ⟨q', hreach.reaches, hok, _, hq', .inl rfl⟩
  | other t hname =>
    obtain ⟨q', hreach, hq'⟩ := (hq.at_cons (ne_of_isNameChar hname).2.2.2.1).other hname
    rw [Pending.add_drop] at hq'
    exact ⟨q', hreach.reaches, hok, _, hq', .inl rfl⟩
  | equal t hmal =>
    have hcarried := hfree '=' t rfl (.inr rfl)
    obtain ⟨q', hreach, hq'⟩ := (hq.at_cons (by decide)).equal
      ((Pending.malformed_drop_iff hok hcarried).not.mpr hmal)
    rw [Pending.name_drop hcarried, trimString_value_crlf] at hq'
    exact ⟨q', hreach.reaches, twin_of_sameEnd hq' (getAStrLoop_crlf t).2⟩
  | malformed t hch hmal =>
    have hmal' := (Pending.malformed_drop_iff hok (hfree _ t rfl hch)).mpr hmal
    rcases hch with rfl | rfl
    · obtain ⟨q', hreach, hq'⟩ := (hq.at_cons (by decide)).brace_malformed hmal'
      exact ⟨q', hreach.reaches, twin_of_sameEnd hq' (sameEnd_endOfLine t)⟩
    · obtain ⟨q', hreach, hq'⟩ := (hq.at_cons (by decide)).equal_malformed hmal'
      exact ⟨q', hreach.reaches, twin_of_sameEnd hq' (sameEnd_endOfLine t)⟩

/-- The runs on a text and on the text with the other line ends build the same tree, as long as no
section and no assignment takes a carried name. By induction on the length of the text, over
`move_cases`. -/
theorem exists_evals_crlf (hp : At p node P t) (hq : Twin q node P t)
    (hheads : ∀ P' ∈ (scan 0 (.names P) t).1, ¬ P'.Carried) :
    ∃ r r', Evals parseLoop p r ∧ Evals parseLoop q r' ∧ r'.curNode = r.curNode ∧
      r'.strText = textMode r.strText := by
  -- on the length of the text: moves and sections make it shorter
  induction hn : t.length using Nat.strong_induction_on generalizing p q node P t with
  | _ n ih =>
  rcases move_cases P t with rfl | ⟨t, rfl⟩ | ⟨t, rfl, hmal⟩ | ⟨change, P', t', hmove⟩
  · have hq := hq.at_nil
    refine ⟨p, q, hp.evals_nil, hq.evals_nil, ?_, ?_⟩
    · rw [hq.curNode, hp.curNode]
    · rw [hq.strText, hp.strText]
      rfl
  · obtain ⟨r, hr, hnode, htext, -⟩ := hp.evals_close
    obtain ⟨r', hr', hnode', htext', -⟩ := (hq.at_cons (by decide)).evals_close
    exact ⟨r, r', hr, hr', hnode'.trans hnode.symm, by rw [htext, htext']⟩
  · rw [List.length_cons] at hn
    have hcarried := hheads P (mem_scan (.inl rfl) 0 P t)
    rw [scan_brace hmal, ← Nat.add_zero (0 + 1), scan_add] at hheads
    obtain ⟨p₀, hp₀, -, -, hreaches⟩ := hp.brace hmal
    obtain ⟨q₀, hq₀, -, -, hreaches'⟩ := (hq.at_cons (by decide)).brace
      ((Pending.malformed_drop_iff hq.1 hcarried).not.mpr hmal)
    rw [Pending.name_drop hcarried] at hq₀
    -- the inner parsers leave the text that follows the section
    obtain ⟨r, r', hr, hr', hnode, htext⟩ := ih t.length (by omega) hp₀
      (twin_of_sameEnd hq₀ (.inl rfl))
      (fun P' hmem => hheads P' (List.mem_cons_of_mem _ (List.mem_append_left _ hmem))) rfl
    obtain ⟨r₀, hr₀, htext₀⟩ := hp₀.exists_evals
    have hrest := (scan_suffix 0 (.names {}) t).length_le
    rw [← htext₀, parseLoop_fuelMono.unique hr₀ hr] at hheads hrest
    obtain ⟨p', hreach, -, hp'⟩ := hreaches r hr
    obtain ⟨q', hreach', -, hq'⟩ := hreaches' r' hr'
    rw [hnode, htext] at hq'
    obtain ⟨s, s', hs, hs', hsame⟩ := ih r.strText.length (by omega) hp'
      (twin_of_sameEnd hq' (.inl rfl))
      (fun P' hmem => hheads P' (List.mem_cons_of_mem _ (List.mem_append_right _ hmem))) rfl
    exact ⟨s, s', hreach s hs, hreach' s' hs', hsame⟩
  · obtain ⟨heads, hscan⟩ := hmove.scan_eq 0
    obtain ⟨p', hreach, hp'⟩ := hmove.reaches hp
    obtain ⟨q', hreach', hq'⟩ := hmove.twin hq (by
      rintro ch t' rfl hch
      exact hheads P (mem_scan hch 0 P t'))
    rw [hscan] at hheads
    obtain ⟨r, r', hr, hr', hsame⟩ := ih _ (hn ▸ hmove.length_lt) hp' hq'
      (fun P' hmem => hheads P' (List.mem_append_right _ hmem)) rfl
    exact ⟨r, r', hreach r hr, hreach' r' hr', hsame⟩

/-- Both line ends lead to the same tree if no section and no assignment takes a carried name. A
carried name was kept over the end of a line on which it was not the last thing: with a carriage
return there, it is overwritten. The condition is read off the text, and no parse is needed for
it. -/
theorem parse_crlf (t : Text) (node : LZData)
    (h : ∀ P ∈ (scan 0 (.names {}) t).1, ¬ P.Carried) :
    ∃ r r', ({ strText := t, curNode := node } : CParser).parse = some r ∧
      ({ strText := textMode t, curNode := node } : CParser).parse = some r' ∧
      r'.curNode = r.curNode := by
  obtain ⟨r, r', hr, hr', hnode, -⟩ :=
    exists_evals_crlf (at_start t node) (twin_start t node) h
  exact ⟨r, r', parse_eq_of_evals hr, parse_eq_of_evals hr', hnode⟩

/-- A nested section, a comment, a blank line and a name in the line in front of its brace. No name
is carried, so the tree is the same with both line ends. -/
theorem parse_crlf_sections :
    let t := "# c\n\na\n\x7b\n b = 1 # c\n c \x7b\n\n\x7d\n\x7d\n".toList
    ∃ r r', ({ strText := t, curNode := ⟨[], [], []⟩ } : CParser).parse = some r ∧
      ({ strText := textMode t, curNode := ⟨[], [], []⟩ } : CParser).parse = some r' ∧
      r'.curNode = r.curNode := parse_crlf _ _ (by decide)

/-- A name with a blank behind it, and the brace in the next line. With a carriage return in between
the name is gone when the brace comes, and the section is dropped. -/
theorem parse_crlf_not_same :
    let t := "a \n\x7b\n\x7d".toList
    '\r' ∉ t ∧ ∃ r r', ({ strText := t, curNode := ⟨[], [], []⟩ } : CParser).parse = some r ∧
      ({ strText := textMode t, curNode := ⟨[], [], []⟩ } : CParser).parse = some r' ∧
      r'.curNode ≠ r.curNode := by
  intro t
  refine ⟨by decide, ?_⟩
  -- the number of sections below the root
  have hsections : (({ strText := t, curNode := ⟨[], [], []⟩ } : CParser).parse).map
      (fun r => r.curNode.children.length) = some 1 := by decide
  have hsections' : (({ strText := textMode t, curNode := ⟨[], [], []⟩ } : CParser).parse).map
      (fun r => r.curNode.children.length) = some 0 := by decide
  rw [Option.map_eq_some_iff] at hsections hsections'
  obtain ⟨r, hr, hlength⟩ := hsections
  obtain ⟨r', hr', hlength'⟩ := hsections'
  refine ⟨r, r', hr, hr', ?_⟩
  intro h
  rw [h, hlength] at hlength'
  cases hlength'

/-- A section or an assignment that takes a carried name has none with the other line ends, and
is dropped with the rest of its line.

This is what a name that breaks the condition of `parse_crlf` does. Nothing else is proved with
it: what the dropped line would have added can be there all the same, by a later line. -/
theorem carried_lost {q : CParser} {node : LZData} {P : Pending} {ch : Char} {u : Text}
    (hq : At q node P.drop (ch :: u)) (hch : ch = '{' ∨ ch = '=') (h : P.Carried) :
    ∃ q', Reaches q q' ∧ At q' node {} (endOfLine u) := by
  have hmal : P.drop.Malformed := by
    rw [Pending.drop_of_carried h.1]
    exact .inl ⟨rfl, h.2⟩
  rcases hch with rfl | rfl
  · obtain ⟨q', hreach, hq'⟩ := hq.brace_malformed hmal
    exact ⟨q', hreach.reaches, hq'⟩
  · obtain ⟨q', hreach, hq'⟩ := hq.equal_malformed hmal
    exact ⟨q', hreach.reaches, hq'⟩

end CParser

end OnlineJudger
