import Mathlib.Data.List.Basic
import Mathlib.Data.Nat.Init

/-!
# `OnlineJudger.Lib.Bracket`: labelled brackets

A token opens an element with a label, closes one, or is an atom. `Nested` is the grammar of
the properly nested sequences. `descend` reads a sequence with a stack of open labels, up to
the end or to the first token that closes nothing.

* `nested_iff_descend`: a sequence is nested exactly when `descend` reads it to its end.
* `descend_eq_closed_iff`: `descend` stops at a closing token exactly behind a nested prefix.
* `descend_concat`: one more open element below the stack. This is the step lemma for a
  recursive-descent parser, which reads an element by a recursive call.

`walk` reads tokens that have brackets, and keeps the elements that are still open.

* `exists_walk_inside_iff`: no closing token is in the way exactly when the sequence is the
  front of a nested one.
* `mem_tops_iff`: the elements at the top are those behind a nested prefix.
* `reaches_concat`: the tokens that are reached with one more open element below the stack.
-/

set_option autoImplicit false

namespace OnlineJudger.Lib

/-- A token of a bracket sequence. -/
inductive Bracket (α : Type) where
  | opening (a : α)
  | closing (a : α)
  | atom
  deriving DecidableEq, Repr

/-- The properly nested sequences. -/
inductive Nested {α : Type} : List (Bracket α) → Prop where
  | nil : Nested []
  | atom {ts : List (Bracket α)} : Nested ts → Nested (.atom :: ts)
  | element {a : α} {xs ts : List (Bracket α)} :
      Nested xs → Nested ts → Nested (.opening a :: (xs ++ .closing a :: ts))

/-- How the reading of a sequence ends. -/
inductive Descent (α : Type) where
  /-- All tokens are read, and no element is open. -/
  | exhausted
  /-- The token closes `a` and no element is open. The tokens behind it are not read. -/
  | closed (a : α) (rest : List (Bracket α))
  /-- A closing token does not match, or an element is left open. -/
  | failed
  deriving DecidableEq, Repr

variable {α : Type} [DecidableEq α]

/-- Read a sequence with a stack of open labels. -/
def descend : List α → List (Bracket α) → Descent α
  | [], [] => .exhausted
  | _ :: _, [] => .failed
  | [], .closing a :: ts => .closed a ts
  | b :: stack, .closing a :: ts => if a = b then descend stack ts else .failed
  | stack, .opening a :: ts => descend (a :: stack) ts
  | stack, .atom :: ts => descend stack ts

/-- An opening token puts its label on the stack. -/
@[simp] theorem descend_opening (stack : List α) (a : α) (ts : List (Bracket α)) :
    descend stack (.opening a :: ts) = descend (a :: stack) ts := by
  cases stack <;> rfl

/-- An atom changes nothing. -/
@[simp] theorem descend_atom (stack : List α) (ts : List (Bracket α)) :
    descend stack (.atom :: ts) = descend stack ts := by
  cases stack <;> rfl

/-- What is read with an open element below the stack: the reading above it, and then the
closing token of that element. -/
theorem descend_concat (stack : List α) (a : α) (ts : List (Bracket α)) :
    descend (stack ++ [a]) ts =
      match descend stack ts with
      | .exhausted => .failed
      | .closed b rest => if b = a then descend [] rest else .failed
      | .failed => .failed := by
  induction ts generalizing stack with
  | nil => cases stack <;> rfl
  | cons t ts ih =>
    cases t with
    | opening b =>
      rw [descend_opening, descend_opening]
      exact ih (b :: stack)
    | atom =>
      rw [descend_atom, descend_atom]
      exact ih stack
    | closing b =>
      -- a closing token meets the innermost open element, or the one below the stack
      cases stack with
      | nil => rfl
      | cons c stack =>
        simp only [List.cons_append, descend]
        split
        · exact ih stack
        · rfl

/-- A nested prefix is read without a trace. By induction on the nesting, for every stack at
once. -/
theorem Nested.descend_append {xs : List (Bracket α)} (h : Nested xs) (stack : List α)
    (ts : List (Bracket α)) : descend stack (xs ++ ts) = descend stack ts := by
  induction h generalizing stack ts with
  | nil => rfl
  | atom _ ih => rw [List.cons_append, descend_atom, ih]
  | element _ _ ih ih' =>
    rw [List.cons_append, descend_opening, List.append_assoc, ih, List.cons_append, descend,
      if_pos rfl, ih']

/-- What `descend` has read is nested: the whole sequence, or the part before the closing
token it stops at. -/
theorem descend_sound (ts : List (Bracket α)) :
    (descend [] ts = .exhausted → Nested ts) ∧
      ∀ a rest, descend [] ts = .closed a rest →
        ∃ xs, Nested xs ∧ ts = xs ++ .closing a :: rest := by
  -- on the length: behind the end of an element the reading goes on in a shorter sequence
  induction hn : ts.length using Nat.strong_induction_on generalizing ts with
  | _ n ih =>
  cases ts with
  | nil =>
    refine ⟨fun _ => .nil, ?_⟩
    intro a rest h
    simp only [descend, reduceCtorEq] at h
  | cons t ts =>
    rw [List.length_cons] at hn
    cases t with
    | closing b =>
      refine ⟨?_, ?_⟩
      · intro h
        simp only [descend, reduceCtorEq] at h
      · intro a rest h
        simp only [descend, Descent.closed.injEq] at h
        obtain ⟨rfl, rfl⟩ := h
        exact ⟨[], .nil, rfl⟩
    | atom =>
      obtain ⟨he, hc⟩ := ih ts.length (by omega) ts rfl
      rw [descend_atom]
      refine ⟨fun h => .atom (he h), ?_⟩
      intro a rest h
      obtain ⟨xs, hxs, rfl⟩ := hc a rest h
      exact ⟨_, .atom hxs, rfl⟩
    | opening b =>
      obtain ⟨-, hc⟩ := ih ts.length (by omega) ts rfl
      rw [descend_opening, ← List.nil_append [b], descend_concat]
      cases hd : descend [] ts with
      | exhausted => simp only [reduceCtorEq, false_implies, implies_true, and_self]
      | failed => simp only [reduceCtorEq, false_implies, implies_true, and_self]
      | closed c after =>
        obtain ⟨xs, hxs, rfl⟩ := hc c after hd
        by_cases hcb : c = b
        · subst hcb
          have hlt : after.length < n := by
            rw [List.length_append, List.length_cons] at hn
            omega
          obtain ⟨he', hc'⟩ := ih after.length hlt after rfl
          simp only [if_true]
          refine ⟨fun h => .element hxs (he' h), ?_⟩
          intro a rest h
          obtain ⟨ys, hys, rfl⟩ := hc' a rest h
          refine ⟨.opening c :: (xs ++ .closing c :: ys), .element hxs hys, ?_⟩
          simp only [List.cons_append, List.append_assoc]
        · simp only [if_neg hcb, reduceCtorEq, false_implies, implies_true, and_self]

/-- The nested sequences are those that `descend` reads to the end: `Nested.descend_append` one way,
`descend_sound` the other. -/
theorem nested_iff_descend (ts : List (Bracket α)) : Nested ts ↔ descend [] ts = .exhausted := by
  refine ⟨?_, (descend_sound ts).1⟩
  intro h
  have := h.descend_append [] []
  rw [List.append_nil] at this
  exact this

/-- `descend` stops at a closing token exactly behind a nested prefix. -/
theorem descend_eq_closed_iff (ts : List (Bracket α)) (a : α) (rest : List (Bracket α)) :
    descend [] ts = .closed a rest ↔ ∃ xs, Nested xs ∧ ts = xs ++ .closing a :: rest := by
  refine ⟨(descend_sound ts).2 a rest, ?_⟩
  rintro ⟨xs, hxs, rfl⟩
  exact hxs.descend_append [] _

/-! ### Tokens that have brackets -/

/-- How far a sequence of tokens is read. -/
inductive Walk (α τ : Type) where
  /-- All tokens are read, and these elements are open, the innermost first. -/
  | inside (stack : List α)
  /-- The token closes `a` and no element is open. The tokens behind it are not read. -/
  | closed (a : α) (rest : List τ)
  /-- A closing token does not match. -/
  | mismatch
  deriving DecidableEq, Repr

variable {τ : Type} {bracket : τ → Bracket α}

/-- Read the tokens with a stack of open labels. -/
def walk (bracket : τ → Bracket α) : List α → List τ → Walk α τ
  | stack, [] => .inside stack
  | stack, t :: ts =>
    match bracket t, stack with
    | .opening a, stack => walk bracket (a :: stack) ts
    | .atom, stack => walk bracket stack ts
    | .closing a, [] => .closed a ts
    | .closing a, b :: stack => if a = b then walk bracket stack ts else .mismatch

/-- The tokens that are read while no element is open. -/
def tops (bracket : τ → Bracket α) : List α → List τ → List τ
  | _, [] => []
  | stack, t :: ts =>
    match bracket t, stack with
    | .opening a, [] => t :: tops bracket [a] ts
    | .opening a, b :: stack => tops bracket (a :: b :: stack) ts
    | .atom, [] => t :: tops bracket [] ts
    | .atom, b :: stack => tops bracket (b :: stack) ts
    | .closing _, [] => []
    | .closing a, b :: stack => if a = b then tops bracket stack ts else []

/-- At the end of the tokens, the open elements are those of the stack. -/
@[simp] theorem walk_nil (stack : List α) : walk bracket stack [] = .inside stack := rfl

/-- An opening token opens its element. -/
theorem walk_opening {t : τ} {a : α} (h : bracket t = .opening a) (stack : List α)
    (ts : List τ) : walk bracket stack (t :: ts) = walk bracket (a :: stack) ts := by
  simp only [walk, h]

/-- A token without a bracket changes nothing. -/
theorem walk_atom {t : τ} (h : bracket t = .atom) (stack : List α) (ts : List τ) :
    walk bracket stack (t :: ts) = walk bracket stack ts := by
  simp only [walk, h]

/-- A closing token with nothing open ends the reading. -/
theorem walk_closing_nil {t : τ} {a : α} (h : bracket t = .closing a) (ts : List τ) :
    walk bracket [] (t :: ts) = .closed a ts := by
  simp only [walk, h]

/-- A closing token closes the innermost element, if it has the same label. -/
theorem walk_closing_cons {t : τ} {a : α} (h : bracket t = .closing a) (b : α)
    (stack : List α) (ts : List τ) :
    walk bracket (b :: stack) (t :: ts) =
      if a = b then walk bracket stack ts else .mismatch := by
  simp only [walk, h]

/-- The reading goes on behind the tokens that are read, with the elements that they leave open. By
induction on the tokens, for every stack. -/
theorem walk_append {stack stack' : List α} {ts : List τ}
    (h : walk bracket stack ts = .inside stack') (us : List τ) :
    walk bracket stack (ts ++ us) = walk bracket stack' us := by
  induction ts generalizing stack with
  | nil =>
    rw [walk_nil, Walk.inside.injEq] at h
    rw [h, List.nil_append]
  | cons t ts ih =>
    rw [List.cons_append]
    -- the head of the text decides the step on both sides
    cases ht : bracket t with
    | opening a =>
      rw [walk_opening ht] at h ⊢
      exact ih h
    | atom =>
      rw [walk_atom ht] at h ⊢
      exact ih h
    | closing a =>
      -- a closing bracket without an opening one would have ended the walk
      cases stack with
      | nil =>
        rw [walk_closing_nil ht] at h
        simp only [reduceCtorEq] at h
      | cons b stack =>
        rw [walk_closing_cons ht] at h ⊢
        -- and so would one that does not match
        split at h
        · rename_i hab
          rw [if_pos hab]
          exact ih h
        · simp only [reduceCtorEq] at h

/-- What is read with an open element below the stack: as above it, and behind the closing token of
that element on the empty stack. -/
theorem walk_concat (stack : List α) (a : α) (ts : List τ) :
    walk bracket (stack ++ [a]) ts =
      match walk bracket stack ts with
      | .inside stack => .inside (stack ++ [a])
      | .closed b rest => if b = a then walk bracket [] rest else .mismatch
      | .mismatch => .mismatch := by
  induction ts generalizing stack with
  | nil => rfl
  | cons t ts ih =>
    cases h : bracket t with
    | opening b =>
      rw [walk_opening h, walk_opening h, ← List.cons_append]
      exact ih (b :: stack)
    | atom =>
      rw [walk_atom h, walk_atom h]
      exact ih stack
    | closing b =>
      -- the bracket closes the level put below the others
      cases stack with
      | nil =>
        rw [List.nil_append, walk_closing_cons h, walk_closing_nil h]
      -- a level of its own is open above it
      | cons c stack =>
        rw [List.cons_append, walk_closing_cons h, walk_closing_cons h]
        split
        · exact ih stack
        · rfl

/-- What is read at the top below one open element: nothing before its closing token, and all the
rest behind it. -/
theorem tops_concat (stack : List α) (a : α) (ts : List τ) :
    tops bracket (stack ++ [a]) ts =
      match walk bracket stack ts with
      | .inside _ => []
      | .closed b rest => if b = a then tops bracket [] rest else []
      | .mismatch => [] := by
  induction ts generalizing stack with
  | nil => cases stack <;> rfl
  | cons t ts ih =>
    cases h : bracket t with
    | opening b =>
      rw [walk_opening h, ← ih (b :: stack)]
      cases stack <;> simp only [tops, h, List.nil_append, List.cons_append]
    | atom =>
      rw [walk_atom h, ← ih stack]
      cases stack <;> simp only [tops, h, List.nil_append, List.cons_append]
    | closing b =>
      -- the level below is closed here, and what follows is at the top again
      cases stack with
      | nil =>
        rw [walk_closing_nil h]
        simp only [tops, h, List.nil_append]
      -- a level of its own is closed, and the walk goes on
      | cons c stack =>
        rw [walk_closing_cons h]
        simp only [tops, h, List.cons_append]
        split
        · exact ih stack
        · rfl

/-- `descend` reads what `walk` reads, and goes on behind it. By induction on the tokens, for any
stack: only a closing bracket can end the walk before their end. -/
theorem descend_map_append (stack : List α) (ts : List τ) (us : List (Bracket α)) :
    descend stack (ts.map bracket ++ us) =
      match walk bracket stack ts with
      | .inside stack => descend stack us
      | .closed a rest => .closed a (rest.map bracket ++ us)
      | .mismatch => .failed := by
  induction ts generalizing stack with
  | nil => rfl
  | cons t ts ih =>
    rw [List.map_cons, List.cons_append]
    cases h : bracket t with
    | opening b => rw [descend_opening, walk_opening h, ih]
    | atom => rw [descend_atom, walk_atom h, ih]
    | closing b =>
      -- the walk stops here with the rest of the text
      cases stack with
      | nil =>
        rw [walk_closing_nil h]
        rfl
      | cons c stack =>
        rw [walk_closing_cons h, descend]
        split
        · exact ih stack
        · rfl

/-- The open elements can be closed, by their closing tokens from the innermost on. -/
theorem descend_closings (stack : List α) : descend stack (stack.map .closing) = .exhausted := by
  induction stack with
  | nil => rfl
  | cons a stack ih => rw [List.map_cons, descend, if_pos rfl, ih]

/-- A sequence is read without a closing token in the way exactly if it can be continued to a
nested one. -/
theorem exists_walk_inside_iff (ts : List τ) :
    (∃ stack, walk bracket [] ts = .inside stack) ↔ ∃ us, Nested (ts.map bracket ++ us) := by
  simp only [nested_iff_descend, descend_map_append]
  constructor
  · rintro ⟨stack, h⟩
    rw [h]
    exact ⟨_, descend_closings stack⟩
  · rintro ⟨us, h⟩
    cases hw : walk bracket [] ts with
    | inside stack => exact ⟨stack, rfl⟩
    | closed a rest =>
      rw [hw] at h
      simp only [reduceCtorEq] at h
    | mismatch =>
      rw [hw] at h
      simp only [reduceCtorEq] at h

/-- The nested sequences leave no element open. -/
theorem walk_eq_inside_nil_iff (ts : List τ) :
    walk bracket [] ts = .inside [] ↔ Nested (ts.map bracket) := by
  have h : descend [] (ts.map bracket ++ []) = _ := descend_map_append [] ts []
  rw [List.append_nil] at h
  rw [nested_iff_descend, h]
  cases walk bracket [] ts with
  | inside stack =>
    cases stack with
    | nil => simp only [descend]
    | cons a stack => simp only [descend, reduceCtorEq, Walk.inside.injEq]
  | closed a rest => simp only [reduceCtorEq]
  | mismatch => simp only [reduceCtorEq]

/-- The places at which `t` stands in a list, at its head or behind it. -/
theorem exists_split_cons {p : List τ → Prop} {s t : τ} {ts : List τ} :
    (∃ pre post, s :: ts = pre ++ t :: post ∧ p pre) ↔
      (t = s ∧ p []) ∨ ∃ pre post, ts = pre ++ t :: post ∧ p (s :: pre) := by
  constructor
  · rintro ⟨pre, post, heq, hp⟩
    cases pre with
    | nil =>
      rw [List.nil_append, List.cons.injEq] at heq
      exact .inl ⟨heq.1.symm, hp⟩
    | cons c pre =>
      rw [List.cons_append, List.cons.injEq] at heq
      obtain ⟨rfl, heq⟩ := heq
      exact .inr ⟨pre, post, heq, hp⟩
  · rintro (⟨rfl, hp⟩ | ⟨pre, post, rfl, hp⟩)
    · exact ⟨[], ts, rfl, hp⟩
    · exact ⟨s :: pre, post, rfl, hp⟩

/-- The tokens at the top, for any stack of open elements: those that are reached with nothing open.
The stack is general because the induction on the tokens changes it at each bracket. -/
theorem mem_tops_stack_iff (stack : List α) (ts : List τ) (t : τ) :
    t ∈ tops bracket stack ts ↔ ∃ pre post, ts = pre ++ t :: post ∧
      (walk bracket stack pre = .inside [] ∧ ∀ a, bracket t ≠ .closing a) := by
  induction ts generalizing stack with
  | nil =>
    -- at the end of the text nothing follows
    simp only [tops, List.not_mem_nil, false_iff, not_exists, not_and]
    intro pre post h
    exact absurd h.symm (List.append_ne_nil_of_right_ne_nil _ (List.cons_ne_nil _ _))
  | cons s ts ih =>
    rw [exists_split_cons]
    cases h : bracket s with
    -- inside the new level nothing is at the top
    | opening b =>
      simp only [walk_opening h, ← ih]
      -- the opening bracket itself is at the top when nothing is open
      cases stack with
      | nil =>
        simp only [tops, h, List.mem_cons, walk_nil, true_and]
        refine or_congr_left (iff_self_and.mpr ?_)
        rintro rfl a
        rw [h]
        simp only [ne_eq, reduceCtorEq, not_false_eq_true]
      | cons c stack =>
        simp only [tops, h, walk_nil, Walk.inside.injEq, reduceCtorEq, false_and, and_false,
          false_or]
    -- an atom is at the top when nothing is open
    | atom =>
      simp only [walk_atom h, ← ih]
      cases stack with
      | nil =>
        simp only [tops, h, List.mem_cons, walk_nil, true_and]
        refine or_congr_left (iff_self_and.mpr ?_)
        rintro rfl a
        rw [h]
        simp only [ne_eq, reduceCtorEq, not_false_eq_true]
      | cons c stack =>
        simp only [tops, h, walk_nil, Walk.inside.injEq, reduceCtorEq, false_and, and_false,
          false_or]
    -- a closing bracket is never at the top
    | closing b =>
      cases stack with
      | nil =>
        simp only [tops, h, List.not_mem_nil, walk_nil, true_and, walk_closing_nil h,
          reduceCtorEq, false_and, and_false, exists_false, or_false, false_iff, not_and]
        rintro rfl hne
        exact hne b h
      | cons c stack =>
        simp only [tops, h, walk_nil, Walk.inside.injEq, reduceCtorEq, false_and, and_false,
          false_or, walk_closing_cons h]
        split
        · exact ih stack
        -- a mismatch reaches nothing
        · simp only [List.not_mem_nil, reduceCtorEq, false_and, and_false, exists_false]

/-- The tokens at the top are those behind a nested prefix. -/
theorem mem_tops_iff (ts : List τ) (t : τ) :
    t ∈ tops bracket [] ts ↔ ∃ pre post, ts = pre ++ t :: post ∧
      (Nested (pre.map bracket) ∧ ∀ a, bracket t ≠ .closing a) := by
  simp only [mem_tops_stack_iff, walk_eq_inside_nil_iff]

/-! ### The tokens that are reached -/

/-- `t` is reached: it stands behind tokens that are read without a closing token in the way. -/
def Reaches (bracket : τ → Bracket α) (t : τ) (stack : List α) (ts : List τ) : Prop :=
  ∃ pre post, ts = pre ++ t :: post ∧ ∃ stack', walk bracket stack pre = .inside stack'

/-- Nothing is reached in an empty sequence. -/
theorem not_reaches_nil (t : τ) (stack : List α) : ¬ Reaches bracket t stack [] := by
  rintro ⟨pre, post, h, -⟩
  exact absurd h.symm (List.append_ne_nil_of_right_ne_nil _ (List.cons_ne_nil _ _))

/-- The token itself is reached, or one behind it. -/
theorem reaches_cons {s t : τ} {stack : List α} {ts : List τ} :
    Reaches bracket t stack (s :: ts) ↔ t = s ∨ ∃ pre post, ts = pre ++ t :: post ∧
      ∃ stack', walk bracket stack (s :: pre) = .inside stack' := by
  rw [Reaches, exists_split_cons]
  simp only [walk_nil, Walk.inside.injEq, exists_eq', and_true]

/-- An opening token opens its element for what is reached behind it. -/
theorem reaches_opening {s t : τ} {a : α} (h : bracket s = .opening a) {stack : List α}
    {ts : List τ} :
    Reaches bracket t stack (s :: ts) ↔ t = s ∨ Reaches bracket t (a :: stack) ts := by
  simp only [reaches_cons, walk_opening h]
  rfl

/-- A token without a bracket changes nothing for what is reached behind it. -/
theorem reaches_atom {s t : τ} (h : bracket s = .atom) {stack : List α} {ts : List τ} :
    Reaches bracket t stack (s :: ts) ↔ t = s ∨ Reaches bracket t stack ts := by
  simp only [reaches_cons, walk_atom h]
  rfl

/-- Nothing is reached behind a token that closes nothing. -/
theorem reaches_closing_nil {s t : τ} {a : α} (h : bracket s = .closing a) {ts : List τ} :
    Reaches bracket t [] (s :: ts) ↔ t = s := by
  simp only [reaches_cons, walk_closing_nil h, reduceCtorEq, exists_false, and_false, or_false]

/-- Behind a closing token, something is reached only if it closes the innermost element. -/
theorem reaches_closing_cons {s t : τ} {a b : α} (h : bracket s = .closing a) {stack : List α}
    {ts : List τ} :
    Reaches bracket t (b :: stack) (s :: ts) ↔
      t = s ∨ (a = b ∧ Reaches bracket t stack ts) := by
  simp only [reaches_cons, walk_closing_cons h]
  by_cases hab : a = b
  · simp only [hab, if_true, true_and]
    rfl
  · simp only [hab, if_false, reduceCtorEq, exists_false, and_false, false_and]

/-- What is reached with an open element below the stack: what is reached above it, and behind
the closing token of that element what is reached there. -/
theorem reaches_concat (t : τ) (stack : List α) (a : α) (ts : List τ) :
    Reaches bracket t (stack ++ [a]) ts ↔ Reaches bracket t stack ts ∨
      ∃ rest, walk bracket stack ts = .closed a rest ∧ Reaches bracket t [] rest := by
  induction ts generalizing stack with
  | nil =>
    simp only [not_reaches_nil, walk_nil, reduceCtorEq, false_and, exists_false, or_self]
  | cons s ts ih =>
    cases h : bracket s with
    | opening b =>
      rw [reaches_opening h, reaches_opening h, walk_opening h, ← List.cons_append, ih, or_assoc]
    | atom => rw [reaches_atom h, reaches_atom h, walk_atom h, ih, or_assoc]
    -- the case where the level below may be closed
    | closing b =>
      cases stack with
      | nil =>
        rw [List.nil_append, reaches_closing_cons h, reaches_closing_nil h, walk_closing_nil h]
        simp only [Walk.closed.injEq, and_assoc, exists_and_left, exists_eq_left']
      | cons c stack =>
        rw [List.cons_append, reaches_closing_cons h, reaches_closing_cons h,
          walk_closing_cons h, ih]
        by_cases hbc : b = c
        · simp only [hbc, if_true, true_and, or_assoc]
        · simp only [hbc, if_false, false_and, reduceCtorEq, exists_false, or_false]

end OnlineJudger.Lib
