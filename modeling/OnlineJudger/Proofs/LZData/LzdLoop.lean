import OnlineJudger.LZData.Lzd
import OnlineJudger.Lib.Fuel
import Mathlib.Data.List.Infix

/-!
# `OnlineJudger.Proofs.LZData.LzdLoop`: the loop of the lzd parser

* `parseLoop_isSome`: a loop with more fuel than text ends, and leaves a suffix of its text.
  So `parse` always returns (`parse_isSome`).
* `Reaches p p'`: the loop at `p` does what the loop at `p'` does. It composes
  (`Reaches.trans`), and it has one rule for the characters (`reaches_char`) and one for the
  opening brace (`reaches_brace`). A proof about a text walks through it by these rules.
-/

set_option autoImplicit false

namespace OnlineJudger

open Lib

namespace CParser

/-! ### The text that is left -/

/-- The name is taken from what has been read, and the text is not touched. -/
theorem parseVarName_strText (p : CParser) : p.parseVarName.2.strText = p.strText := by
  unfold parseVarName
  split_ifs <;> rfl

/-- A value is read from the front of the text. By induction along the reading. -/
theorem getAStrLoop_suffix (text : Text) : (getAStrLoop text).2 <:+ text := by
  induction text using getAStrLoop.induct with
  | case1 => exact List.suffix_rfl
  | case2 ch h =>
    simp only [getAStrLoop, if_pos h]
    exact List.suffix_rfl
  | case3 ch h =>
    simp only [getAStrLoop, if_neg h]
    exact List.nil_suffix
  | case4 ch next text h =>
    simp only [getAStrLoop, if_pos h]
    exact List.suffix_rfl
  | case5 ch next text h hesc ih =>
    simp only [getAStrLoop, if_neg h, if_pos hesc]
    exact ih.trans ((List.suffix_cons next text).trans (List.suffix_cons ch _))
  | case6 ch next text h hesc ih =>
    simp only [getAStrLoop, if_neg h, if_neg hesc]
    exact ih.trans (List.suffix_cons ch _)

/-- An assignment reads its value, or it is an error and reads nothing. -/
theorem onEqual_suffix (p : CParser) : p.onEqual.strText <:+ p.strText := by
  unfold onEqual
  simp only []
  split_ifs
  · exact ⟨[], parseVarName_strText p⟩
  · exact (getAStrLoop_suffix p.parseVarName.2.strText).trans ⟨[], parseVarName_strText p⟩

/-- The end of a line reads nothing more. -/
theorem onReturn_strText (p : CParser) : p.onReturn.strText = p.strText := by
  unfold onReturn
  simp only []
  split_ifs <;> exact parseVarName_strText p

/-- The blanks behind a blank are skipped. -/
theorem onSpace_suffix (p : CParser) : p.onSpace.strText <:+ p.strText := by
  unfold onSpace
  split_ifs
  · exact List.suffix_rfl
  · exact List.dropWhile_suffix _
  · exact List.dropWhile_suffix _
  · exact List.dropWhile_suffix _

/-- Behind an error the parser skips to the end of the line. -/
theorem onError_suffix (p : CParser) : p.onError.strText <:+ p.strText := List.dropWhile_suffix _

/-- The end of a pass of the loop. -/
def settle (p : CParser) : CParser := if p.error then p.onError else p

/-- With an error or without one, the text gets no longer. -/
theorem settle_suffix (p : CParser) : p.settle.strText <:+ p.strText := by
  unfold settle
  split_ifs
  · exact onError_suffix p
  · exact List.suffix_rfl

/-- Without an error, the end of a pass does nothing. -/
theorem settle_of_errorID {p : CParser} (h : p.errorID = 0) : p.settle = p := by
  have hno : ¬ p.error = true := by
    rw [error, h]
    decide
  rw [settle, if_neg hno]

/-- The `switch` without the case of the opening brace. -/
def onPlain (p : CParser) (ch : Char) : CParser :=
  if ch = '}' then p.onRBraket
  else if ch = '=' then p.onEqual
  else if ch = '\n' then p.onReturn
  else if ch = ' ' ∨ ch = '\t' then p.onSpace
  else if ch = '#' then p.onComment
  else if ch = ';' then p
  else p.onOther ch

/-- Only the opening brace calls the parser again. -/
theorem onChar_of_ne {ch : Char} (h : ch ≠ '{') (parse : CParser → Option CParser) (p : CParser) :
    onChar parse p ch = some (p.onPlain ch) := by
  unfold onChar onPlain
  rw [if_neg h]
  split_ifs <;> rfl

/-- Each case of the `switch` leaves a suffix of the text. -/
theorem onPlain_suffix (p : CParser) (ch : Char) : (p.onPlain ch).strText <:+ p.strText := by
  unfold onPlain
  split_ifs
  · exact List.suffix_rfl
  · exact onEqual_suffix p
  · exact ⟨[], onReturn_strText p⟩
  · exact onSpace_suffix p
  · exact List.dropWhile_suffix _
  · exact List.suffix_rfl
  · exact List.suffix_rfl

/-! ### What is printed -/

/-- Taking the name reports nothing. -/
theorem parseVarName_output (p : CParser) : p.parseVarName.2.output = p.output := by
  unfold parseVarName
  split_ifs <;> rfl

/-- No character is reported before the end of its pass. -/
theorem onPlain_output (p : CParser) (ch : Char) : (p.onPlain ch).output = p.output := by
  unfold onPlain
  split_ifs
  · rfl
  · unfold onEqual
    simp only []
    split_ifs <;> exact parseVarName_output p
  · unfold onReturn
    simp only []
    split_ifs <;> exact parseVarName_output p
  · unfold onSpace
    split_ifs <;> rfl
  · rfl
  · rfl
  · rfl

/-! ### Fuel -/

/-- A section uses the inner parser once, so it returns what it returned when the inner parser gets
more fuel. -/
theorem onLBraket_mono {parse parse' : CParser → Option CParser}
    (h : ∀ q r, parse q = some r → parse' q = some r) {p r : CParser}
    (hr : p.onLBraket parse = some r) : p.onLBraket parse' = some r := by
  unfold onLBraket at hr ⊢
  simp only [] at hr ⊢
  split_ifs at hr ⊢ with herr
  · exact hr
  · cases hq : parse (p.parseVarName.2.clearNames.inner p.parseVarName.1) with
    | none =>
      rw [hq] at hr
      simp only [reduceCtorEq] at hr
    | some parser =>
      rw [hq] at hr
      rw [h _ _ hq]
      exact hr

/-- More fuel keeps a result, by induction on the fuel: the loop and the inner parser get one unit
less each. -/
theorem parseLoop_fuelMono : FuelMono parseLoop := by
  intro fuel
  induction fuel with
  | zero =>
    intro p r h
    simp only [parseLoop, reduceCtorEq] at h
  | succ fuel ih =>
    intro p r h
    rw [parseLoop] at h ⊢
    cases htext : p.strText with
    | nil =>
      rw [htext] at h
      exact h
    | cons ch text =>
      rw [htext] at h
      simp only [] at h ⊢
      split_ifs at h ⊢ with hend
      · exact h
      · by_cases hch : ch = '{'
        · subst hch
          -- an inner parser and the loop behind it, both on the smaller fuel
          simp only [onChar, if_true] at h ⊢
          cases hq : onLBraket (fun parser => parseLoop fuel parser.reset)
              { p with strText := text } with
          | none =>
            rw [hq] at h
            simp only [reduceCtorEq] at h
          | some q =>
            rw [hq] at h
            rw [onLBraket_mono (fun _ _ => ih _ _) hq]
            exact ih _ _ h
        · rw [onChar_of_ne hch] at h ⊢
          exact ih _ _ h

/-- A section whose text is shorter than the fuel: the inner parser returns, and goes on where it
has stopped. -/
theorem onLBraket_isSome (parse : CParser → Option CParser) (p : CParser)
    (h : ∀ q, q.strText = p.strText → ∃ r, parse q = some r ∧ r.strText <:+ q.strText) :
    ∃ r, p.onLBraket parse = some r ∧ r.strText <:+ p.strText := by
  have htext : p.parseVarName.2.clearNames.strText = p.strText := parseVarName_strText p
  unfold onLBraket
  simp only []
  split_ifs
  · exact ⟨_, rfl, [], htext⟩
  · obtain ⟨r, hr, hsuffix⟩ := h (p.parseVarName.2.clearNames.inner p.parseVarName.1) htext
    rw [hr]
    refine ⟨_, rfl, ?_⟩
    rw [← htext]
    exact hsuffix

/-- A loop that has more fuel than text ends, and leaves a suffix of its text. By induction on the
fuel, because each pass reads a character at least. -/
theorem parseLoop_isSome {fuel : Nat} {p : CParser} (h : p.strText.length < fuel) :
    ∃ r, parseLoop fuel p = some r ∧ r.strText <:+ p.strText := by
  induction fuel generalizing p with
  | zero => exact absurd h (Nat.not_lt_zero _)
  | succ fuel ih =>
    rw [parseLoop]
    cases htext : p.strText with
    | nil => exact ⟨p, rfl, [], htext⟩
    | cons ch text =>
      rw [htext, List.length_cons] at h
      simp only []
      split_ifs with hend
      · exact ⟨p, rfl, [], htext⟩
      -- each pass takes a character, so the fuel stays ahead of the text
      · have hchar : ∃ q, onChar (fun parser => parseLoop fuel parser.reset)
            { p with strText := text } ch = some q ∧ q.strText <:+ text := by
          by_cases hch : ch = '{'
          · subst hch
            refine onLBraket_isSome (fun parser => parseLoop fuel parser.reset)
              { p with strText := text } ?_
            intro q hq
            refine ih (p := q.reset) ?_
            rw [reset, hq]
            exact Nat.lt_of_succ_lt_succ h
          · exact ⟨_, onChar_of_ne hch _ _, onPlain_suffix _ ch⟩
        obtain ⟨q, hq, hsuffix⟩ := hchar
        have hsettle := (settle_suffix q).trans hsuffix
        obtain ⟨r, hr, hrest⟩ := ih (p := q.settle) (by have := hsettle.length_le; omega)
        rw [hq]
        exact ⟨r, hr, hrest.trans (hsettle.trans (List.suffix_cons ch text))⟩

/-- `parse` returns: its fuel is the length of the text and one more. -/
theorem parse_isSome (p : CParser) : ∃ r, p.parse = some r ∧ r.strText <:+ p.strText :=
  parseLoop_isSome (p := p.reset) (Nat.lt_succ_self _)

/-- The fuel that `parse` gives to its loop suffices. -/
theorem parse_eq_of_evals {p r : CParser} (h : Evals parseLoop p.reset r) : p.parse = some r := by
  obtain ⟨r', hr', -⟩ := parse_isSome p
  refine parseLoop_fuelMono.eq_of_isSome h ?_
  rw [← parse, hr']
  rfl

/-! ### Walking through a text -/

/-- The loop at `p` does what the loop at `p'` does, in its result and in all that it reports. -/
def Reaches (p p' : CParser) : Prop := ∀ r, Evals parseLoop p' r → Evals parseLoop p r

/-- No character is read. -/
theorem Reaches.refl (p : CParser) : Reaches p p := fun _ h => h

/-- A text in two parts. -/
theorem Reaches.trans {p p' p'' : CParser} (h : Reaches p p') (h' : Reaches p' p'') :
    Reaches p p'' := fun r hr => h r (h' r hr)

/-- A character that opens no section. -/
theorem reaches_char {p : CParser} {ch : Char} {text : Text} (htext : p.strText = ch :: text)
    (hend : p.bEnd = false) (hch : ch ≠ '{') :
    Reaches p ({ p with strText := text }.onPlain ch).settle := by
  have hno : ¬ p.bEnd = true := by
    rw [hend]
    decide
  rintro r ⟨fuel, hr⟩
  refine ⟨fuel + 1, ?_⟩
  rw [parseLoop, htext]
  simp only [if_neg hno, onChar_of_ne hch]
  exact hr

/-- A character that raises no error. -/
theorem reaches_plain {p q : CParser} {ch : Char} {text : Text} (htext : p.strText = ch :: text)
    (hend : p.bEnd = false) (hch : ch ≠ '{') (hplain : { p with strText := text }.onPlain ch = q)
    (herr : q.errorID = 0) : Reaches p q := by
  have := reaches_char htext hend hch
  rwa [hplain, settle_of_errorID herr] at this

/-- What `onLBraket` makes of the finished inner parser. -/
def leave (p parser : CParser) : CParser where
  __ := p
  curNode := p.curNode.addChild parser.curNode
  strText := parser.strText
  curLine := p.curLine + parser.curLine
  output := parser.output

/-- A section that an inner parser reads. If the inner parser returns, the outer one goes on behind
its closing brace, with the section as a new child. -/
theorem reaches_brace {p q parser : CParser} {name text : Text} (htext : p.strText = '{' :: text)
    (hend : p.bEnd = false) (hname : { p with strText := text }.parseVarName = (name, q))
    (herr : q.errorID = 0)
    (hparser : Evals parseLoop (q.inner name) parser) :
    Reaches p (q.clearNames.leave parser) := by
  have hno : ¬ p.bEnd = true := by
    rw [hend]
    decide
  -- the section raises no error, so the pass ends where it is
  have hsettle : (q.clearNames.leave parser).settle = q.clearNames.leave parser :=
    settle_of_errorID herr
  intro r hr
  obtain ⟨fuel, hparser, hr⟩ := parseLoop_fuelMono.common hparser hr
  have hchar : onChar (fun parser => parseLoop fuel parser.reset) { p with strText := text } '{' =
      some (q.clearNames.leave parser) := by
    have herr' : ¬ q.clearNames.error = true := by
      rw [error, clearNames, herr]
      decide
    have hinner : (q.clearNames.inner name).reset = q.inner name := rfl
    simp only [onChar, if_true, onLBraket, hname, if_neg herr', hinner, hparser]
    rfl
  refine ⟨fuel + 1, ?_⟩
  rw [parseLoop, htext]
  simp only [if_neg hno, hchar]
  rw [← hsettle] at hr
  exact hr

/-- The text ends, or the section is closed. Then the loop returns the parser as it is. -/
theorem evals_end {p : CParser} (h : p.strText = [] ∨ p.bEnd = true) : Evals parseLoop p p := by
  refine ⟨1, ?_⟩
  rw [parseLoop]
  cases htext : p.strText with
  | nil => rfl
  | cons ch text =>
    rcases h with h | h
    · rw [h] at htext
      simp only [reduceCtorEq] at htext
    · simp only [if_pos h]

end CParser

end OnlineJudger
