import Mathlib.Algebra.BigOperators.Group.List.Basic
import Mathlib.Algebra.Order.Group.Multiset
import Mathlib.Tactic.Abel

/-!
# `OnlineJudger.Lib.Slots`: a list of slots, one of which changes

Parties of one kind are kept in a list, and a step of one of them replaces its element.

* `getElem?_set_of_some`, `getElem?_set_cases`: what a party is afterwards.
* `coe_filterMap_set`, `sum_map_set`: what the parties hold together is a multiset or a sum over
  the list, and the two rules say how it changes with one element.
-/

set_option autoImplicit false

namespace OnlineJudger.Lib

variable {α β : Type}

/-! ### One element -/

/-- The elements of a list after one of them was replaced. -/
theorem getElem?_set_of_some {l : List α} {i : ℕ} {a : α} (h : l[i]? = some a) (b : α) (j : ℕ) :
    (l.set i b)[j]? = if i = j then some b else l[j]? := by
  rw [List.getElem?_set, if_pos (List.getElem?_eq_some_iff.mp h).1]

/-- The same for an element that is there: it is the new one, or it was there before. -/
theorem getElem?_set_cases {l : List α} {i j : ℕ} {a b c : α} (h : l[i]? = some a)
    (hset : (l.set i b)[j]? = some c) : i = j ∧ c = b ∨ i ≠ j ∧ l[j]? = some c := by
  rw [getElem?_set_of_some h] at hset
  split_ifs at hset with hij
  · exact .inl ⟨hij, (Option.some.inj hset).symm⟩
  · exact .inr ⟨hij, hset⟩

/-! ### All elements together -/

/-- The first element and the others. -/
theorem coe_filterMap_cons (f : α → Option β) (a : α) (l : List α) :
    (((a :: l).filterMap f : List β) : Multiset β) =
      (f a).toList + (l.filterMap f : Multiset β) := by
  rw [List.filterMap_cons]
  cases f a with
  | none => rw [Option.toList_none, Multiset.coe_nil, zero_add]
  | some b => rw [Option.toList_some, Multiset.coe_singleton, Multiset.singleton_add]; rfl

/-- Replacing one element of a list, seen through a partial function. -/
theorem coe_filterMap_set (f : α → Option β) {l : List α} {i : ℕ} {a : α}
    (h : l[i]? = some a) (b : α) :
    (((l.set i b).filterMap f : List β) : Multiset β) + (f a).toList =
      (l.filterMap f : Multiset β) + (f b).toList := by
  induction l generalizing i with
  | nil => simp only [List.getElem?_nil, reduceCtorEq] at h
  | cons x l ih =>
    cases i with
    | zero =>
      rw [List.getElem?_cons_zero, Option.some.injEq] at h
      subst h
      rw [List.set_cons_zero, coe_filterMap_cons, coe_filterMap_cons]
      abel
    | succ i =>
      rw [List.getElem?_cons_succ] at h
      rw [List.set_cons_succ, coe_filterMap_cons, coe_filterMap_cons, add_assoc, ih h, add_assoc]

/-- The same for a sum. -/
theorem sum_map_set (f : α → ℕ) {l : List α} {i : ℕ} {a : α} (h : l[i]? = some a) (b : α) :
    ((l.set i b).map f).sum + f a = (l.map f).sum + f b := by
  induction l generalizing i with
  | nil => simp only [List.getElem?_nil, reduceCtorEq] at h
  | cons x l ih =>
    cases i with
    | zero =>
      rw [List.getElem?_cons_zero, Option.some.injEq] at h
      subst h
      simp only [List.set_cons_zero, List.map_cons, List.sum_cons]
      omega
    | succ i =>
      rw [List.getElem?_cons_succ] at h
      have hrest := ih h
      simp only [List.set_cons_succ, List.map_cons, List.sum_cons]
      omega

end OnlineJudger.Lib
