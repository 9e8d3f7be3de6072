import OnlineJudger.Proofs.LZData.LzdMoves

/-!
# `OnlineJudger.Proofs.LZData.LzdRecovery`: what is read behind a malformed statement

Behind an error the parser drops the text up to the next newline or closing brace. An opening
brace that is dropped opens nothing, and a closing brace that ends the dropped part closes a
section even in a comment. So the braces that count (`kept`) need not be those of the text
(`braces`).

* `parse_reads_all_iff`: the parser reads the whole text exactly if the braces that count never
  close more than they open, before the last character.
* `parse_reads_all_of_balanced`: that is so in a balanced text in which all braces count. This is
  what the criterion means to the author of a file: with balanced braces, and no error that drops
  one of them, nothing of the file is lost.
-/

set_option autoImplicit false

namespace OnlineJudger

open Lib

namespace CParser

/-! ### The braces of a text -/

/-- Where a character stands. -/
inductive Part where
  | text
  | comment
  /-- `escape` says that a backslash stands in front of the character. -/
  | value (escape : Bool)
  deriving DecidableEq, Repr

/-- The end of a comment or a value is a part of the text again. -/
def Part.settle : Part → Char → Part
  | .text, _ => .text
  | .comment, ch => if ch = '\n' then .text else .comment
  | .value escape, ch =>
    if isValueEnd ch = true ∧ ¬ (escape = true ∧ isEscaped ch = true) then .text
    else .value (!escape && ch == '\\')

/-- The part behind a character. -/
def Part.after (part : Part) (ch : Char) : Part :=
  if part.settle ch = .text then
    if ch = '=' then .value false else if ch = '#' then .comment else .text
  else part.settle ch

/-- The brace that a character is. -/
def Part.brace (part : Part) (ch : Char) : Bracket Unit :=
  if part.settle ch = .text then
    if ch = '{' then .opening () else if ch = '}' then .closing () else .atom
  else .atom

/-- The braces of a text outside of comments and values. The other characters are atoms. -/
def braces : Part → Text → List (Bracket Unit)
  | _, [] => []
  | part, ch :: t => part.brace ch :: braces (part.after ch) t

/-- The braces of a text are balanced. -/
def Balanced (t : Text) : Prop := Nested (braces .text t)

/-! ### Where the parser stops -/

/-- The fronts of a list, short of the whole list. -/
theorem forall_front_cons {α : Type} {q : List α → Prop} {a : α} {l : List α} :
    (∀ pre post, a :: l = pre ++ post → post ≠ [] → q pre) ↔
      q [] ∧ ∀ pre post, l = pre ++ post → post ≠ [] → q (a :: pre) := by
  constructor
  · intro h
    refine ⟨h [] (a :: l) rfl (List.cons_ne_nil a l), ?_⟩
    rintro pre post rfl hpost
    exact h (a :: pre) post rfl hpost
  · rintro ⟨hnil, hcons⟩ pre post heq hpost
    cases pre with
    | nil => exact hnil
    | cons b pre =>
      rw [List.cons_append, List.cons.injEq] at heq
      obtain ⟨rfl, heq⟩ := heq
      exact hcons pre post heq hpost

/-- A section is open with `stack` around it, and `t` is read to its end exactly if no brace that
counts closes more than was opened. By induction on the text, for any stack and mode. -/
theorem scan_eq_nil_iff (stack : List Unit) (m : Mode) (t : Text) :
    (scan stack.length m t).2 = [] ↔ ∀ pre post, t = pre ++ post → post ≠ [] →
      ∃ stack', walk id stack (kept m pre) = .inside stack' := by
  induction t generalizing stack m with
  | nil =>
    refine iff_of_true (by rw [scan_nil]) ?_
    intro pre post h hpost
    exact absurd (List.append_eq_nil_iff.mp h.symm).2 hpost
  | cons ch t ih =>
    have hnil : ∃ stack', walk id stack (kept m []) = .inside stack' := ⟨stack, rfl⟩
    rw [forall_front_cons, and_iff_right hnil]
    simp only [kept]
    cases hb : m.brace ch with
    | atom => simp only [scan_atom hb, ih, walk_atom (show id Bracket.atom = .atom from rfl)]
    | opening a =>
      rw [scan_opening hb]
      exact ih (() :: stack) (m.after ch)
    | closing a =>
      cases stack with
      | nil =>
        rw [List.length_nil, scan_closing_zero hb]
        constructor
        · rintro rfl pre post h hpost
          exact absurd (List.append_eq_nil_iff.mp h.symm).2 hpost
        · intro h
          by_contra hne
          obtain ⟨stack', h⟩ := h [] t rfl hne
          cases h
      | cons b stack =>
        rw [List.length_cons, scan_closing_succ hb]
        exact ih stack (m.after ch)

/-- The parser reads the whole text exactly if, before the last character, the braces that count
never close more sections than they open. No brace counts in a comment or behind a backslash in a
value. An opening brace without a proper name does not count either, while a closing brace behind
such an error does. -/
theorem parse_reads_all_iff (t : Text) (node : LZData) :
    ∃ r, ({ strText := t, curNode := node } : CParser).parse = some r ∧
      (r.strText = [] ↔ ∀ pre post, t = pre ++ post → post ≠ [] →
        ∃ us, Nested (kept (.names {}) pre ++ us)) := by
  obtain ⟨r, hr, htext⟩ := (at_start t node).exists_evals
  refine ⟨r, parse_eq_of_evals hr, ?_⟩
  rw [htext]
  refine (scan_eq_nil_iff [] (.names {}) t).trans ?_
  simp only [exists_walk_inside_iff, List.map_id]

/-- A section without a name: its opening brace is skipped as an error, its closing brace closes the
root, and the rest of the file is not read. -/
theorem parse_not_reads_all :
    let t := "\x7b\n\x7d\nx = 1".toList
    Balanced t ∧ ∃ r, ({ strText := t, curNode := ⟨[], [], []⟩ } : CParser).parse = some r ∧
      r.strText = "\nx = 1".toList := by
  intro t
  refine ⟨?_, ?_⟩
  · rw [Balanced, nested_iff_descend]
    decide
  · obtain ⟨r, hr, htext⟩ := (at_start t ⟨[], [], []⟩).exists_evals
    refine ⟨r, parse_eq_of_evals hr, ?_⟩
    rw [htext]
    decide

/-- In a balanced text of which all braces count, the parser reads everything.

Balanced braces alone are not enough (`parse_not_reads_all`). `hkept` excludes an error that drops
one of them. -/
theorem parse_reads_all_of_balanced {t : Text} (h : Balanced t)
    (hkept : kept (.names {}) t = braces .text t) (node : LZData) :
    ∃ r, ({ strText := t, curNode := node } : CParser).parse = some r ∧ r.strText = [] := by
  obtain ⟨r, hr, hiff⟩ := parse_reads_all_iff t node
  refine ⟨r, hr, hiff.mpr ?_⟩
  rintro pre post rfl -
  rw [Balanced, ← hkept, kept_append] at h
  exact ⟨_, h⟩

end CParser

end OnlineJudger
