import Mathlib.Data.List.Chain
import OnlineJudger.LZData.Lzd

/-!
# `OnlineJudger.Proofs.LZData.LzdEscape`: `convertValue` and `getAStr`

`convertValue` puts a backslash in front of `#`, `}` and `;`. `getAStr` drops a backslash in
front of these, and in front of a second backslash. `convertValue` does not escape a
backslash, so the two disagree where a backslash of the value is followed by one of these
four characters. Everywhere else the reader is in step with the writer.

`getAStrLoop_convertValue` is the round trip, and `getAStrLoop_convertValue_lossy` says that
it is lost otherwise: the value gets shorter, or the reader stops inside it.
-/

set_option autoImplicit false

namespace OnlineJudger.CParser

open Lib

/-- No backslash is followed by a character that `getAStr` takes as escaped. -/
def NoFalseEscape (value : Text) : Prop :=
  value.IsChain fun ch next => ch = '\\' → isEscaped next = false

/-- A value without a backslash has no escape at all. -/
theorem noFalseEscape_of_not_mem {value : Text} (h : '\\' ∉ value) : NoFalseEscape value := by
  induction value using List.twoStepInduction with
  | nil => exact List.IsChain.nil
  | singleton ch => exact List.IsChain.singleton ch
  | cons_cons ch next value _ ih =>
    rw [List.mem_cons, not_or] at h
    exact List.isChain_cons_cons.mpr ⟨fun hch => absurd hch.symm h.1, ih next h.2⟩

/-! ### One step of the reader -/

/-- A character that ends no value and escapes nothing. -/
theorem getAStrLoop_cons {ch : Char} (hend : isValueEnd ch = false) (hesc : ch ≠ '\\')
    (text : Text) :
    getAStrLoop (ch :: text) = (ch :: (getAStrLoop text).1, (getAStrLoop text).2) := by
  cases text with
  | nil => simp only [getAStrLoop, hend, Bool.false_eq_true, if_false]
  | cons next text =>
    simp only [getAStrLoop, hend, Bool.false_eq_true, if_false, hesc, false_and]

/-- A backslash in front of one of the four characters is dropped, and the character is taken even
where it would end the value. -/
theorem getAStrLoop_escape {next : Char} (h : isEscaped next = true) (text : Text) :
    getAStrLoop ('\\' :: next :: text) =
      (next :: (getAStrLoop text).1, (getAStrLoop text).2) := by
  have hend : isValueEnd '\\' = false := rfl
  simp only [getAStrLoop, hend, Bool.false_eq_true, if_false, h, and_self, if_true]

/-- A backslash that escapes nothing stands for itself. -/
theorem getAStrLoop_backslash {next : Char} (h : isEscaped next = false) (text : Text) :
    getAStrLoop ('\\' :: next :: text) =
      ('\\' :: (getAStrLoop (next :: text)).1, (getAStrLoop (next :: text)).2) := by
  have hend : isValueEnd '\\' = false := rfl
  simp only [getAStrLoop, hend, Bool.false_eq_true, if_false, h, and_false]

/-- A character that ends the value stays in the text. -/
theorem getAStrLoop_end {ch : Char} (h : isValueEnd ch = true) (text : Text) :
    getAStrLoop (ch :: text) = ([], ch :: text) := by
  cases text with
  | nil => simp only [getAStrLoop, h, if_true]
  | cons next text => simp only [getAStrLoop, h, if_true]

/-- So does the newline. -/
theorem getAStrLoop_newline (text : Text) : getAStrLoop ('\n' :: text) = ([], '\n' :: text) :=
  getAStrLoop_end rfl text

/-! ### One character of the writer -/

/-- The characters that `convertValue` escapes. -/
def isConverted (ch : Char) : Bool := ch == '#' || ch == '}' || ch == ';'

/-- One of the three characters gets a backslash. -/
theorem convertValue_cons_of_converted {ch : Char} (h : isConverted ch = true) (value : Text) :
    convertValue (ch :: value) = '\\' :: ch :: convertValue value := by
  have hch : ch = '#' ∨ ch = '}' ∨ ch = ';' := by simpa [isConverted, or_assoc] using h
  rw [convertValue, List.flatMap_cons, if_pos hch]
  rfl

/-- Any other character is written as it is, the backslash too. -/
theorem convertValue_cons_of_not {ch : Char} (h : isConverted ch = false) (value : Text) :
    convertValue (ch :: value) = ch :: convertValue value := by
  have hch : ¬(ch = '#' ∨ ch = '}' ∨ ch = ';') := by simpa [isConverted, and_assoc] using h
  rw [convertValue, List.flatMap_cons, if_neg hch]
  rfl

/-- A character that is converted is a value end and an escaped character. -/
theorem isEscaped_of_converted {ch : Char} (h : isConverted ch = true) :
    isEscaped ch = true ∧ isValueEnd ch = true ∧ ch ≠ '\\' ∧ ch ≠ '\n' := by
  have hch : (ch = '#' ∨ ch = '}') ∨ ch = ';' := by simpa [isConverted] using h
  rcases hch with (rfl | rfl) | rfl <;> decide

/-- A character that is not converted ends no value, a newline apart. -/
theorem isValueEnd_of_not_converted {ch : Char} (h : isConverted ch = false) (hnl : ch ≠ '\n') :
    isValueEnd ch = false := by
  have hch : (ch ≠ '#' ∧ ch ≠ '}') ∧ ch ≠ ';' := by simpa [isConverted] using h
  simp [isValueEnd, hch, hnl]

/-- The reader takes a character that is no backslash as the writer has put it down. -/
theorem getAStrLoop_convertValue_cons {ch : Char} (hnl : ch ≠ '\n') (hesc : ch ≠ '\\')
    (value text : Text) :
    getAStrLoop (convertValue (ch :: value) ++ text) =
      (ch :: (getAStrLoop (convertValue value ++ text)).1,
        (getAStrLoop (convertValue value ++ text)).2) := by
  cases hch : isConverted ch with
  | true =>
    rw [convertValue_cons_of_converted hch, List.cons_append, List.cons_append,
      getAStrLoop_escape (isEscaped_of_converted hch).1]
  | false =>
    rw [convertValue_cons_of_not hch, List.cons_append,
      getAStrLoop_cons (isValueEnd_of_not_converted hch hnl) hesc]

/-- The reader takes a backslash as the writer has put it down, when the next character of the
value is not taken as escaped. -/
theorem getAStrLoop_convertValue_backslash {next : Char} (h : isEscaped next = false)
    (value text : Text) :
    getAStrLoop (convertValue ('\\' :: next :: value) ++ text) =
      ('\\' :: (getAStrLoop (convertValue (next :: value) ++ text)).1,
        (getAStrLoop (convertValue (next :: value) ++ text)).2) := by
  have hnext : isConverted next = false := by
    refine Bool.eq_false_iff.mpr fun hconv => ?_
    have hesc := (isEscaped_of_converted hconv).1
    rw [h] at hesc
    cases hesc
  rw [convertValue_cons_of_not rfl, convertValue_cons_of_not hnext, List.cons_append,
    List.cons_append, getAStrLoop_backslash h]

/-! ### The round trip -/

/-- A printed value without a false escape is read back. By induction on the value, with one step of
the reader for one of the writer. -/
theorem getAStrLoop_convertValue {value : Text} (hnl : '\n' ∉ value) (h : NoFalseEscape value)
    (rest : Text) :
    getAStrLoop (convertValue value ++ '\n' :: rest) = (value, '\n' :: rest) := by
  induction value with
  | nil => exact getAStrLoop_newline rest
  | cons ch value ih =>
    rw [List.mem_cons, not_or] at hnl
    have ih := ih hnl.2 h.tail
    by_cases hesc : ch = '\\'
    · subst hesc
      cases value with
      | nil =>
        -- the newline behind the value is not taken as escaped
        show getAStrLoop ('\\' :: '\n' :: rest) = _
        rw [getAStrLoop_backslash rfl, getAStrLoop_newline]
      | cons next value =>
        rw [getAStrLoop_convertValue_backslash ((List.isChain_cons_cons.mp h).1 rfl), ih]
    · rw [getAStrLoop_convertValue_cons (Ne.symm hnl.1) hesc, ih]

/-- What the reader makes of a printed value is not longer than the value. When it is as long,
and the reader stops in front of a newline, then the value had no false escape. -/
theorem getAStrLoop_convertValue_lossy {value : Text} (hnl : '\n' ∉ value) (rest : Text) :
    let r := getAStrLoop (convertValue value ++ '\n' :: rest)
    r.1.length ≤ value.length ∧
      (r.1.length = value.length → r.2.head? = some '\n' → NoFalseEscape value) := by
  induction value using List.twoStepInduction with
  | nil => exact ⟨by simp [convertValue, getAStrLoop_newline], fun _ _ => List.IsChain.nil⟩
  | singleton ch =>
    have hone : NoFalseEscape [ch] := List.IsChain.singleton ch
    refine ⟨?_, fun _ _ => hone⟩
    rw [getAStrLoop_convertValue hnl hone]
  | cons_cons ch next value ih ih' =>
    simp only [List.mem_cons, not_or] at hnl ih'
    obtain ⟨hch, hnext, hvalue⟩ := hnl
    obtain ⟨hle, hclean⟩ := ih hvalue
    obtain ⟨hle', hclean'⟩ := ih' next ⟨hnext, hvalue⟩
    by_cases hesc : ch = '\\'
    · subst hesc
      cases hn : isEscaped next with
      | false =>
        rw [getAStrLoop_convertValue_backslash hn]
        simp only [List.length_cons] at hle' ⊢
        refine ⟨by omega, fun hlen hhead => ?_⟩
        refine List.isChain_cons_cons.mpr ⟨fun _ => hn, hclean' ?_ hhead⟩
        simp only [List.length_cons]
        omega
      | true =>
        cases hc : isConverted next with
        | true =>
          -- the writer's backslash is taken for the escaped one, and the reader stops
          obtain ⟨-, hend, -, hne⟩ := isEscaped_of_converted hc
          rw [convertValue_cons_of_not rfl, convertValue_cons_of_converted hc]
          simp only [List.cons_append, getAStrLoop_escape (show isEscaped '\\' = true from rfl),
            getAStrLoop_end hend]
          refine ⟨by simp, fun _ hhead => absurd (Option.some.inj hhead) hne⟩
        | false =>
          -- two backslashes are read as one
          have hback : next = '\\' := by
            by_contra hne
            simp [isEscaped, isConverted, hne] at hn hc
            tauto
          subst hback
          rw [convertValue_cons_of_not rfl, convertValue_cons_of_not rfl, List.cons_append,
            List.cons_append, getAStrLoop_escape rfl]
          simp only [List.length_cons] at hle ⊢
          exact ⟨by omega, fun hlen _ => absurd hlen (by omega)⟩
    · rw [getAStrLoop_convertValue_cons (Ne.symm hch) hesc]
      simp only [List.length_cons] at hle' ⊢
      refine ⟨by omega, fun hlen hhead => ?_⟩
      refine List.isChain_cons_cons.mpr ⟨fun h => absurd h hesc, hclean' ?_ hhead⟩
      simp only [List.length_cons]
      omega

/-- A value without a newline and without blanks at its ends is read back exactly when none of its
backslashes stands in front of a `#`, a `}`, a `;` or a second backslash. The writer escapes these
three characters but not the backslash, while the reader takes a backslash away in front of all
four. -/
theorem getAStr_convertValue_iff {value : Text} (hnl : '\n' ∉ value)
    (htrim : Trimmed isWhiteSpace value) (p : CParser) (rest : Text) :
    ({ p with strText := convertValue value ++ '\n' :: rest } : CParser).getAStr =
        (value, { p with strText := '\n' :: rest }) ↔
      NoFalseEscape value := by
  constructor
  · intro h
    obtain ⟨hle, hclean⟩ := getAStrLoop_convertValue_lossy hnl rest
    have hvalue := congrArg Prod.fst h
    have hleft := congrArg (fun r => r.2.strText) h
    simp only [getAStr] at hvalue hleft
    refine hclean (Nat.le_antisymm hle ?_) (by rw [hleft, List.head?_cons])
    -- trimming makes nothing longer
    have hlen := length_trim_le (p := isWhiteSpace)
      (getAStrLoop (convertValue value ++ '\n' :: rest)).1
    exact (congrArg List.length hvalue).symm.le.trans hlen
  · intro h
    rw [getAStr]
    simp only [getAStrLoop_convertValue hnl h]
    exact congrArg (·, _) (trim_eq_self htrim)

/-- A backslash in front of a letter is kept, beside a `#`, which is escaped and comes back. -/
theorem getAStr_convertValue_path :
    NoFalseEscape "a\\b#c".toList ∧
      ({ strText := convertValue "a\\b#c".toList ++ "\n".toList,
         curNode := ⟨"root".toList, [], []⟩ } : CParser).getAStr.1 = "a\\b#c".toList := by
  have hclean : NoFalseEscape "a\\b#c".toList := by
    simp only [NoFalseEscape, String.toList]
    decide
  have h := (getAStr_convertValue_iff (by decide) (by decide)
    ⟨[], ⟨"root".toList, [], []⟩, false, 0, [], [], 0, [], 0, []⟩ []).mpr hclean
  exact ⟨hclean, congrArg Prod.fst h⟩

/-- Two backslashes are read back as one: the writer does not escape them, and the reader takes the
first one for an escape. -/
theorem getAStr_convertValue_two_backslashes :
    ¬(({ strText := convertValue "\\\\".toList ++ "\n".toList,
         curNode := ⟨"root".toList, [], []⟩ } : CParser).getAStr.1 = "\\\\".toList) := by
  decide

end OnlineJudger.CParser
