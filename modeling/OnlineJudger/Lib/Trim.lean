import Mathlib.Data.List.DropRight

/-!
# `OnlineJudger.Lib.Trim`: dropping a prefix and a suffix of blanks

`trim p l` drops the elements that satisfy `p` at both ends of `l`. It is `List.dropWhile`
followed by `List.rdropWhile`. `Trimmed p l` says that neither end of `l` satisfies `p`.

* `trim_append`: blanks around a trimmed list are dropped, and the list itself stays. This
  is the lemma a printer and a parser share: the printer surrounds a word with blanks, and
  the parser trims them.
* `trim_eq_self`, `trim_eq_nil`: the two cases without a word to find.
-/

set_option autoImplicit false

namespace OnlineJudger.Lib

variable {α : Type} (p : α → Bool)

/-- Drop the elements that satisfy `p` at both ends. -/
def trim (l : List α) : List α := (l.dropWhile p).rdropWhile p

/-- Neither the first nor the last element satisfies `p`. -/
def Trimmed (l : List α) : Prop :=
  (∀ a ∈ l.head?, p a = false) ∧ ∀ a ∈ l.getLast?, p a = false

/-- Both ends are looked at. -/
instance (l : List α) : Decidable (Trimmed p l) := by
  unfold Trimmed
  infer_instance

variable {p}

/-- A left trim stops at a first element that does not satisfy `p`. -/
theorem dropWhile_append_of_head {pre l : List α} (hpre : ∀ a ∈ pre, p a = true)
    (h : ∀ a ∈ l.head?, p a = false) : (pre ++ l).dropWhile p = l := by
  rw [List.dropWhile_append_of_pos hpre]
  cases l with
  | nil => rfl
  | cons a l => rw [List.dropWhile_cons_of_neg (by simp [h a rfl])]

/-- A right trim stops at a last element that does not satisfy `p`. -/
theorem rdropWhile_append_of_last {l post : List α} (hpost : ∀ a ∈ post, p a = true)
    (h : ∀ a ∈ l.getLast?, p a = false) : (l ++ post).rdropWhile p = l := by
  unfold List.rdropWhile
  rw [List.reverse_append, dropWhile_append_of_head (fun a ha => hpost a (List.mem_reverse.mp ha))
    (by simpa using h), List.reverse_reverse]

/-- Blanks around a trimmed list are dropped. -/
theorem trim_append {pre l post : List α} (hpre : ∀ a ∈ pre, p a = true)
    (hpost : ∀ a ∈ post, p a = true) (h : Trimmed p l) : trim p (pre ++ (l ++ post)) = l := by
  unfold trim
  cases l with
  | nil =>
    have hall : ∀ a ∈ pre ++ ([] ++ post), p a = true := by
      intro a ha
      rcases List.mem_append.mp ha with ha | ha
      · exact hpre a ha
      · exact hpost a ha
    rw [List.dropWhile_eq_nil_iff.mpr hall, List.rdropWhile_nil]
  | cons a l =>
    rw [dropWhile_append_of_head (l := a :: l ++ post) hpre (fun b hb => h.1 b hb)]
    exact rdropWhile_append_of_last hpost h.2

/-- A trimmed list is left alone. -/
theorem trim_eq_self {l : List α} (h : Trimmed p l) : trim p l = l := by
  have htrim := trim_append (List.forall_mem_nil _) (List.forall_mem_nil _) h
  simpa using htrim

/-- A list of blanks is trimmed to the empty list. -/
theorem trim_eq_nil {l : List α} (h : ∀ a ∈ l, p a = true) : trim p l = [] := by
  have htrim : trim p (l ++ ([] ++ [])) = [] :=
    trim_append h (List.forall_mem_nil _) ⟨by simp, by simp⟩
  simpa using htrim

/-- Trimming makes no list longer. -/
theorem length_trim_le (l : List α) : (trim p l).length ≤ l.length :=
  (List.rdropWhile_prefix p (l.dropWhile p)).length_le.trans (List.length_dropWhile_le p l)

end OnlineJudger.Lib
