import OnlineJudger.LZData.LZData

/-!
# `OnlineJudger.Acm.Utilities`: C strings and conversions

The model of `trimPartStringA`, `wcharToChar` and `charToWChar` of `acm/Utilities.cpp`, and of a
`char` buffer that is taken as a C string.

Wide texts and byte texts are both lists of `Char`: a byte is the character of its number. What the
system converts between the two is a `CodePage`. It is a parameter, since it is the code page of
the machine that the program runs on.
-/

set_option autoImplicit false

namespace OnlineJudger

/-- The characters of a C string in a buffer: those in front of the first NUL. -/
def cString (buffer : Text) : Text := buffer.takeWhile (· ≠ '\x00')

/-- What stands behind a NUL does not belong to it. -/
theorem cString_append_nul (str rest : Text) : cString (str ++ '\x00' :: rest) = cString str := by
  unfold cString
  induction str with
  | nil => rfl
  | cons c str ih => rw [List.cons_append, List.takeWhile_cons, List.takeWhile_cons, ih]

/-- A text without a NUL is a C string as it is. -/
theorem cString_eq_self {str : Text} (h : '\x00' ∉ str) : cString str = str := by
  unfold cString
  rw [List.takeWhile_eq_self_iff]
  intro c hc
  exact decide_eq_true (ne_of_mem_of_not_mem hc h)

/-- It is not longer than the buffer. -/
theorem length_cString_le (str : Text) : (cString str).length ≤ str.length :=
  (List.takeWhile_sublist _).length_le

/-- It has no NUL. -/
theorem nul_not_mem_cString (str : Text) : '\x00' ∉ cString str := by
  intro hmem
  have hne := List.mem_takeWhile_imp (p := fun ch => decide (ch ≠ '\x00')) hmem
  exact absurd rfl (of_decide_eq_true hne)

/-- Its end is its end: what was cut once is not cut again. -/
@[simp] theorem cString_cString (str : Text) : cString (cString str) = cString str :=
  cString_eq_self (nul_not_mem_cString str)

/-- `trimPartStringA`: the part in front of the first NUL. -/
def trimPartStringA (str : Text) : Text := cString str

/-- The conversions of a code page of the system, on texts without a NUL: `WideCharToMultiByte` to
the bytes, and `MultiByteToWideChar` back from them. A character that the page does not have comes
out as another one. -/
structure CodePage where
  toBytes : Text → Text
  toWide : Text → Text

/-- The code page 28591: a byte for each of the first 256 characters. Every other character becomes
a question mark. -/
def latin1 : CodePage where
  toBytes wstr := wstr.map fun ch => if ch.toNat < 256 then ch else '?'
  toWide str := str

/-- `wcharToChar`. The system converts the C string of the text, and the bytes are cut at their
first NUL. -/
def wcharToChar (page : CodePage) (wstr : Text) : Text :=
  trimPartStringA (page.toBytes (cString wstr))

/-- `charToWChar`. `trimPartStringW` cuts at a NUL as `trimPartStringA` does. -/
def charToWChar (page : CodePage) (str : Text) : Text := cString (page.toWide (cString str))

/-- The conversion gives a C string. -/
@[simp] theorem cString_wcharToChar (page : CodePage) (wstr : Text) :
    cString (wcharToChar page wstr) = wcharToChar page wstr :=
  cString_cString _

/-- On `latin1`, a text of its characters without a NUL stays as it is. -/
theorem wcharToChar_latin1 {wstr : Text} (hnul : '\x00' ∉ wstr) (h : ∀ ch ∈ wstr, ch.toNat < 256) :
    wcharToChar latin1 wstr = wstr := by
  have hmap : latin1.toBytes wstr = wstr :=
    (List.map_congr_left fun ch hch => if_pos (h ch hch)).trans (List.map_id _)
  rw [wcharToChar, cString_eq_self hnul, hmap]
  exact cString_eq_self hnul

/-! ### Text mode -/

/-- What a stream in text mode writes: the text with a carriage return in front of each newline. -/
def textMode (text : Text) : Text := text.flatMap fun ch => if ch = '\n' then ['\r', '\n'] else [ch]

/-- A newline becomes two characters. -/
theorem textMode_newline (t : Text) : textMode ('\n' :: t) = '\r' :: '\n' :: textMode t := rfl

/-- Every other character stays. -/
theorem textMode_cons {ch : Char} (h : ch ≠ '\n') (t : Text) :
    textMode (ch :: t) = ch :: textMode t := by
  rw [textMode, List.flatMap_cons, if_neg h]
  rfl

/-- The stream writes character by character. -/
theorem textMode_append (t u : Text) : textMode (t ++ u) = textMode t ++ textMode u :=
  List.flatMap_append

/-- A character between two texts. -/
theorem textMode_append_cons {ch : Char} (h : ch ≠ '\n') (t u : Text) :
    textMode (t ++ ch :: u) = textMode t ++ ch :: textMode u := by
  rw [textMode_append, textMode_cons h]

/-- The carriage returns are the only new characters. -/
theorem mem_textMode {ch : Char} (h : ch ≠ '\r') {t : Text} : ch ∈ textMode t ↔ ch ∈ t := by
  induction t with
  | nil => rfl
  | cons c t ih =>
    by_cases hc : c = '\n'
    · subst hc
      rw [textMode_newline, List.mem_cons, List.mem_cons, List.mem_cons, ih, or_iff_right h]
    · rw [textMode_cons hc, List.mem_cons, List.mem_cons, ih]

/-- Only the empty text is an empty file. -/
theorem textMode_eq_nil {t : Text} : textMode t = [] ↔ t = [] := by
  cases t with
  | nil => exact iff_of_true rfl rfl
  | cons c t =>
    refine iff_of_false ?_ (List.cons_ne_nil c t)
    by_cases hc : c = '\n'
    · subst hc
      exact List.cons_ne_nil _ _
    · rw [textMode_cons hc]
      exact List.cons_ne_nil _ _

/-- A newline of the file stands behind a carriage return. -/
theorem newline_cons_ne_textMode (t u : Text) : '\n' :: t ≠ textMode u := by
  cases u with
  | nil => exact List.cons_ne_nil _ _
  | cons c u =>
    by_cases hc : c = '\n'
    · subst hc
      rw [textMode_newline]
      exact fun h => absurd (List.cons.inj h).1 (by decide)
    · rw [textMode_cons hc]
      exact fun h => hc (List.cons.inj h).1.symm

/-- Two texts lead to two files, so a file can be read back. By induction on the first text. -/
theorem textMode_injective {t u : Text} (h : textMode t = textMode u) : t = u := by
  induction t generalizing u with
  | nil => exact (textMode_eq_nil.mp h.symm).symm
  | cons c t ih =>
    cases u with
    | nil => exact absurd (textMode_eq_nil.mp h) (List.cons_ne_nil c t)
    | cons c' u =>
      by_cases hc : c = '\n'
      · by_cases hc' : c' = '\n'
        · subst hc
          subst hc'
          rw [textMode_newline, textMode_newline, List.cons.injEq, List.cons.injEq] at h
          rw [ih h.2.2]
        · subst hc
          rw [textMode_newline, textMode_cons hc', List.cons.injEq] at h
          exact absurd h.2 (newline_cons_ne_textMode _ u)
      · by_cases hc' : c' = '\n'
        · subst hc'
          rw [textMode_newline, textMode_cons hc, List.cons.injEq] at h
          exact absurd h.2.symm (newline_cons_ne_textMode _ t)
        · rw [textMode_cons hc, textMode_cons hc', List.cons.injEq] at h
          rw [h.1, ih h.2]

/-- A text in one line is written as it stands. -/
theorem textMode_eq_self_iff {t : Text} : textMode t = t ↔ '\n' ∉ t := by
  induction t with
  | nil => exact iff_of_true rfl List.not_mem_nil
  | cons c t ih =>
    rw [List.mem_cons, not_or]
    by_cases hc : c = '\n'
    · subst hc
      refine iff_of_false ?_ (fun h => h.1 rfl)
      rw [textMode_newline, List.cons.injEq]
      exact fun h => absurd h.1 (by decide)
    · rw [textMode_cons hc, List.cons.injEq, ih, and_iff_right rfl, and_iff_right (Ne.symm hc)]

end OnlineJudger
