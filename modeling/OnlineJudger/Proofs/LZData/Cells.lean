import OnlineJudger.Proofs.LZData.WriteFrame

/-!
# `OnlineJudger.Proofs.LZData.Cells`: the tree as a map

What a user of the tree sees of it is a map from paths to values. `Cells` is this map, with a mark
at each path whose node is the first child of its parent: such a node keeps its value in all
later writes. `Cells.write` is what a write does to the map, without a tree: it makes the paths on
the way and the path itself, or it overwrites a path without the mark.

The main result is `cells_writes`: the tree refines the map, for every tree and every sequence of
writes.
-/

set_option autoImplicit false

namespace OnlineJudger

/-- What a path holds. `kept` says that later writes leave the value. -/
structure Cell where
  value : Text
  kept : Bool
  deriving DecidableEq, Repr

/-- The paths that are there. -/
abbrev Cells := List Text → Option Cell

namespace Cells

/-- No path with the same parent is there. -/
def First (m : Cells) (q : List Text) : Prop := ∀ s, m (q.dropLast ++ [s]) = none

open Classical in
/-- A write, on the map. A path that is made is marked if nothing with its parent was there, and the
value of a marked path stays. It asks for all paths with one parent, so it is not computed. -/
noncomputable def write (m : Cells) (p : List Text) (v : Text) : Cells := fun q =>
  if q = p then
    match m p with
    | none => some ⟨v, decide (m.First p)⟩
    | some c => some (if c.kept then c else ⟨v, false⟩)
  else if q ≠ [] ∧ q <+: p ∧ m q = none then some ⟨[], decide (m.First q)⟩
  else m q

variable {m : Cells} {p q : List Text} {v : Text} {c : Cell}

open Classical in
/-- A path that is not there is made with the value, and with its mark. -/
theorem write_of_none (h : m p = none) : m.write p v p = some ⟨v, decide (m.First p)⟩ := by
  rw [write, if_pos rfl, h]

/-- A path that is there is overwritten unless it has the mark. -/
theorem write_of_some (h : m p = some c) :
    m.write p v p = some (if c.kept then c else ⟨v, false⟩) := by
  rw [write, if_pos rfl, h]

open Classical in
/-- A path that is made on the way. -/
theorem write_of_prefix (hne : q ≠ p) (hnil : q ≠ []) (hfront : q <+: p) (h : m q = none) :
    m.write p v q = some ⟨[], decide (m.First q)⟩ := by
  rw [write, if_neg hne, if_pos ⟨hnil, hfront, h⟩]

/-- A path that is not on the way. -/
theorem write_of_not_prefix (hfront : ¬q <+: p) : m.write p v q = m q := by
  have hne : q ≠ p := by
    rintro rfl
    exact hfront (List.prefix_refl q)
  rw [write, if_neg hne, if_neg fun h => hfront h.2.1]

/-- Another path that is there. -/
theorem write_of_ne (hne : q ≠ p) (h : m q = some c) : m.write p v q = some c := by
  rw [write, if_neg hne, if_neg (by rw [h]; simp), h]

/-- The siblings below one segment. -/
theorem first_below {m' : Cells} {a : Text} (h : ∀ r, r ≠ [] → m' r = m (a :: r)) (hq : q ≠ []) :
    m'.First q ↔ m.First (a :: q) := by
  unfold First
  rw [List.dropLast_cons_of_ne_nil hq]
  refine forall_congr' fun s => ?_
  rw [List.cons_append, h _ (by simp)]

open Classical in
/-- A write below one segment. -/
theorem write_below {m' : Cells} {a : Text} (h : ∀ r, r ≠ [] → m' r = m (a :: r)) (hp : p ≠ [])
    (hq : q ≠ []) : m'.write p v q = m.write (a :: p) v (a :: q) := by
  simp only [write, List.cons.injEq, true_and, List.cons_prefix_cons, ne_eq, reduceCtorEq,
    not_false_eq_true, hq, h p hp, h q hq, decide_eq_decide.mpr (first_below h hp),
    decide_eq_decide.mpr (first_below h hq)]

end Cells

namespace LZData

/-- The tree as a map. A path that the tree finds has the value of its node, and the mark if the
node is child number 0. -/
def cells : LZData → Cells
  | _, [] => none
  | d, [s] => (d.findTag s).map fun i : Nat => ⟨(d.getChild i).value, i == 0⟩
  | d, s :: s' :: q =>
    match d.findTag s with
    | some i => (d.getChild i).cells (s' :: q)
    | none => none

/-! ### The equations of the map -/

section Equations

variable {d : LZData} {s : Text} {i : Nat}

/-- The root is no path: its value cannot be read. -/
@[simp] theorem cells_nil (d : LZData) : d.cells [] = none := by rw [cells]

/-- A path of one segment names the first child with that tag. -/
theorem cells_singleton (d : LZData) (s : Text) :
    d.cells [s] = (d.findTag s).map fun i : Nat => ⟨(d.getChild i).value, i == 0⟩ := by rw [cells]

/-- The same, where the child is known. -/
theorem cells_singleton_of_some (h : d.findTag s = some i) :
    d.cells [s] = some ⟨(d.getChild i).value, i == 0⟩ := by
  rw [cells_singleton, h]
  rfl

/-- Below a segment that is not there nothing is. -/
theorem cells_cons_of_none (h : d.findTag s = none) (q : List Text) : d.cells (s :: q) = none := by
  cases q with
  | nil => rw [cells_singleton, h, Option.map_none]
  | cons s' q => rw [cells, h]

/-- Below a segment that is there, the map is that of its node. -/
theorem cells_cons_of_some (h : d.findTag s = some i) {q : List Text} (hq : q ≠ []) :
    d.cells (s :: q) = (d.getChild i).cells q := by
  cases q with
  | nil => exact absurd rfl hq
  | cons s' q => rw [cells, h]

/-- Below a node without children no path is there. -/
theorem cells_leaf (h : d.children = []) (q : List Text) : d.cells q = none := by
  cases q with
  | nil => exact cells_nil d
  | cons s q => exact cells_cons_of_none (by simp [findTag, h]) q

/-- The map reads the children of a node only. -/
theorem cells_setString (d : LZData) (v : Text) (q : List Text) :
    (d.setString v).cells q = d.cells q := by
  cases q with
  | nil => rw [cells_nil, cells_nil]
  | cons s q =>
    have hfind : (d.setString v).findTag s = d.findTag s := rfl
    cases q with
    | nil => rw [cells_singleton, cells_singleton, hfind]; rfl
    | cons s' q => rw [cells, cells, hfind]; rfl

/-- A path is first exactly when its parent has no children. -/
theorem first_singleton_iff : d.cells.First [s] ↔ d.children = [] := by
  show (∀ t, d.cells [t] = none) ↔ _
  constructor
  · intro h
    cases hc : d.children with
    | nil => rfl
    -- the first child would be found under its own name
    | cons c cs =>
      have hfind : d.findTag c.tag = some 0 := by
        simp [findTag, hc, List.findIdx?_cons]
      have hnone := h c.tag
      rw [cells_singleton_of_some hfind] at hnone
      simp only [reduceCtorEq] at hnone
  · intro h t
    exact cells_leaf h [t]

end Equations

/-! ### A changed tree -/

section Changed

variable {d c : LZData} {s a : Text} {i : Nat}

/-- A new last child is found by no other segment. -/
theorem cells_addChild_ne (ha : c.tag ≠ a) (q : List Text) :
    (d.addChild c).cells (a :: q) = d.cells (a :: q) := by
  have hsame := findTag_addChild_of_ne (d := d) c ha
  cases hj : d.findTag a with
  | none => rw [cells_cons_of_none hj, cells_cons_of_none (hsame.trans hj)]
  | some j =>
    have hchild := getChild_addChild c (findTag_lt hj)
    cases q with
    | nil => rw [cells_singleton_of_some hj, cells_singleton_of_some (hsame.trans hj), hchild]
    | cons s q =>
      rw [cells_cons_of_some hj (by simp), cells_cons_of_some (hsame.trans hj) (by simp), hchild]

/-- A new last child hides no path. -/
theorem cells_addChild_of_some (hi : d.findTag a = some i) (q : List Text) :
    (d.addChild c).cells (a :: q) = d.cells (a :: q) := by
  have hfind := findTag_addChild_of_some c hi
  have hchild := getChild_addChild c (findTag_lt hi)
  cases q with
  | nil => rw [cells_singleton_of_some hi, cells_singleton_of_some hfind, hchild]
  | cons s q =>
    rw [cells_cons_of_some hi (by simp), cells_cons_of_some hfind (by simp), hchild]

/-- Another child than the replaced one. -/
theorem cells_setChild_ne (hf : d.findTag s = some i) (hc : c.tag = s) (ha : a ≠ s)
    (q : List Text) : (d.setChild i c).cells (a :: q) = d.cells (a :: q) := by
  have hsame := findTag_setChild a (getChild_of_findTag hf) (hc.trans (getChild_tag hf).symm)
  -- both trees find the same child, which is not the one replaced
  cases hj : d.findTag a with
  | none => rw [cells_cons_of_none hj, cells_cons_of_none (hsame.trans hj)]
  | some j =>
    have hij : i ≠ j := by
      rintro rfl
      exact ha ((getChild_tag hj).symm.trans (getChild_tag hf))
    have hchild := getChild_setChild_ne (d := d) c hij
    cases q with
    | nil => rw [cells_singleton_of_some hj, cells_singleton_of_some (hsame.trans hj), hchild]
    | cons s q =>
      rw [cells_cons_of_some hj (by simp), cells_cons_of_some (hsame.trans hj) (by simp), hchild]

/-- The replaced child is found where it was, because its tag is the same. -/
theorem findTag_setChild_self (hf : d.findTag s = some i) (hc : c.tag = s) :
    (d.setChild i c).findTag s = some i := by
  rw [findTag_setChild s (getChild_of_findTag hf) (hc.trans (getChild_tag hf).symm), hf]

/-- What is there is the new child. -/
theorem getChild_setChild_self (hf : d.findTag s = some i) (hc : c.tag = s) :
    (d.setChild i c).getChild i = c := by
  have hget := getChild_of_findTag (findTag_setChild_self hf hc)
  rw [getElem?_setChild_self c (findTag_lt hf), Option.some.injEq] at hget
  exact hget.symm

/-- The replaced child. -/
theorem cells_setChild_singleton (hf : d.findTag s = some i) (hc : c.tag = s) :
    (d.setChild i c).cells [s] = some ⟨c.value, i == 0⟩ := by
  rw [cells_singleton_of_some (findTag_setChild_self hf hc), getChild_setChild_self hf hc]

/-- Below the replaced child. -/
theorem cells_setChild_cons (hf : d.findTag s = some i) (hc : c.tag = s) {q : List Text}
    (hq : q ≠ []) : (d.setChild i c).cells (s :: q) = c.cells q := by
  rw [cells_cons_of_some (findTag_setChild_self hf hc) hq, getChild_setChild_self hf hc]

end Changed

/-! ### The tree refines the map -/

open Classical in
/-- A write to a child. A child that is there keeps its place and gets the new value, and a missing
one is added behind the others; in the map of the paths both set one entry. -/
theorem cells_writeSegs_singleton (d : LZData) (s v : Text) :
    (d.writeSegs [s] v).1.cells = d.cells.write [s] v := by
  funext q
  cases q with
  | nil => rw [cells_nil, Cells.write, if_neg (by simp), if_neg (by simp), cells_nil]
  | cons a q =>
    by_cases hfront : a :: q <+: [s]
    · -- the child itself
      rw [List.cons_prefix_cons, List.prefix_nil] at hfront
      obtain ⟨rfl, rfl⟩ := hfront
      cases hf : d.findTag a with
      | none =>
        rw [Cells.write_of_none (cells_cons_of_none hf []), writeSegs, hf]
        rw [cells_singleton_of_some (findTag_addChild_self ⟨a, v, []⟩ hf)]
        simp only [getChild, addChild, Int.toNat_natCast, first_singleton_iff]
        cases hc : d.children <;> simp
      | some i =>
        rw [Cells.write_of_some (cells_singleton_of_some hf), writeSegs, hf]
        cases i with
        | zero =>
          show (d.addChild ⟨a, v, []⟩).cells [a] = _
          rw [cells_addChild_of_some hf, cells_singleton_of_some hf]
          rfl
        | succ i =>
          exact cells_setChild_singleton hf (getChild_tag hf)
    · rw [Cells.write_of_not_prefix hfront]
      unfold writeSegs
      split
      · next k hf =>
        have htag : ((d.getChild (k + 1 : Nat)).setString v).tag = s := getChild_tag hf
        by_cases has : a = s
        · subst has
          have hq : q ≠ [] := by
            rintro rfl
            exact hfront (List.prefix_refl _)
          show (d.setChild (k + 1 : Nat) ((d.getChild (k + 1 : Nat)).setString v)).cells _ = _
          rw [cells_setChild_cons hf htag hq, cells_setString, ← cells_cons_of_some hf hq]
        · exact cells_setChild_ne hf htag has q
      · by_cases has : a = s
        · subst has
          have hq : q ≠ [] := by
            rintro rfl
            exact hfront (List.prefix_refl _)
          cases hf : d.findTag a with
          | some i => exact cells_addChild_of_some hf q
          | none =>
            rw [cells_cons_of_none hf, cells_cons_of_some (findTag_addChild_self ⟨a, v, []⟩ hf) hq]
            refine cells_leaf ?_ q
            simp [getChild, addChild]
        · exact cells_addChild_ne (Ne.symm has) q

/-- What `enter` does to the map: it makes the segment if it is not there. -/
theorem cells_enter_of_ne {d : LZData} {s a : Text} (ha : a ≠ s) (q : List Text) :
    (d.enter s).1.cells (a :: q) = d.cells (a :: q) := by
  unfold enter
  cases d.findTag s with
  | none => exact cells_addChild_ne (Ne.symm ha) q
  | some i => rfl

/-- A path below the entered child, in the tree before. -/
theorem cells_enter_child (d : LZData) (s : Text) {q : List Text} (hq : q ≠ []) :
    ((d.enter s).1.getChild (d.enter s).2).cells q = d.cells (s :: q) := by
  obtain ⟨-, hnone, hsome⟩ := enter_spec d s
  cases hf : d.findTag s with
  | none => rw [hnone hf, cells_cons_of_none hf, cells_leaf rfl]
  | some i => rw [hsome i hf, cells_cons_of_some hf hq]

open Classical in
/-- The entered segment itself. -/
theorem cells_enter_self (d : LZData) (s : Text) :
    (d.enter s).1.cells [s] =
      match d.cells [s] with
      | none => some ⟨[], decide (d.cells.First [s])⟩
      | some c => some c := by
  cases hf : d.findTag s with
  | none =>
    have henter : d.enter s = (d.addChild ⟨s, [], []⟩, d.children.length) := by
      rw [enter, hf]
    rw [henter, cells_cons_of_none hf,
      cells_singleton_of_some (findTag_addChild_self ⟨s, [], []⟩ hf)]
    simp only [getChild, addChild, Int.toNat_natCast, first_singleton_iff]
    cases hc : d.children <;> simp
  | some i =>
    have henter : d.enter s = (d, i) := by rw [enter, hf]
    rw [henter, cells_singleton_of_some hf]

/-- A write, over the list of segments. By induction on the segments, with `enter` for the first of
them. -/
theorem cells_writeSegs (d : LZData) (p : List Text) (v : Text) (hp : p ≠ []) :
    (d.writeSegs p v).1.cells = d.cells.write p v := by
  fun_induction writeSegs d p v with
  | case1 => exact absurd rfl hp
  | case2 d s v k hf =>
    rw [← cells_writeSegs_singleton, writeSegs, hf]
  | case3 d s v hf =>
    rw [← cells_writeSegs_singleton]
    unfold writeSegs
    split
    · next k hk => exact absurd hk (hf k)
    · rfl
  | case4 d s s' rest v d' i henter child ptr hw ih =>
    obtain ⟨hfind, -, -⟩ := enter_spec d s
    have htag := (writeSegs_tag_value (d'.getChild i) (s' :: rest) v).1
    have hvalue := (writeSegs_tag_value (d'.getChild i) (s' :: rest) v).2
    rw [henter] at hfind
    rw [hw] at ih htag hvalue
    have hc : child.tag = s := htag.trans (getChild_tag hfind)
    funext q
    cases q with
    | nil => rw [cells_nil, Cells.write, if_neg (by simp), if_neg (by simp), cells_nil]
    | cons a q =>
      by_cases has : a = s
      · subst has
        by_cases hq : q = []
        · -- the first segment: it is there, or it is made
          subst hq
          have hself := cells_enter_self d a
          rw [henter, cells_singleton_of_some hfind] at hself
          rw [cells_setChild_singleton hfind hc, hvalue, hself]
          cases hcell : d.cells [a] with
          | none =>
            rw [Cells.write_of_prefix (by simp) (by simp) (by simp) hcell]
          | some c => rw [Cells.write_of_ne (by simp) hcell]
        · -- below the child
          have hbelow : ∀ r, r ≠ [] → (d'.getChild i).cells r = d.cells (a :: r) := by
            intro r hr
            rw [← cells_enter_child d a hr, henter]
          rw [cells_setChild_cons hfind hc hq, ih (by simp), Cells.write_below hbelow (by simp) hq]
      · rw [cells_setChild_ne hfind hc has, Cells.write_of_not_prefix ?_]
        · have hother := cells_enter_of_ne (d := d) has q
          rw [henter] at hother
          exact hother
        · rw [List.cons_prefix_cons]
          exact fun h => has h.1

/-- The map at a path is what `read` finds there. By induction on the path. -/
theorem cells_value (d : LZData) (q : List Text) (hq : q ≠ []) :
    (d.cells q).map Cell.value = (d.readSegs q).bind fun ptr => (d.nodeAt ptr).map (·.value) := by
  -- on the recursion of `cells`, which follows that of the read
  fun_induction cells d q with
  | case1 => exact absurd rfl hq
  | case2 d s =>
    rw [readSegs]
    cases hf : d.findTag s with
    | none => rfl
    | some i =>
      simp only [Option.map_some, readSegs, Option.bind_some, nodeAt, getChild_of_findTag hf]
  | case3 d s s' q i hf ih =>
    rw [ih (by simp), readSegs_cons_of_some hf]
    cases (d.getChild i).readSegs (s' :: q) with
    | none => rfl
    | some ptr =>
      simp only [Option.map_some, Option.bind_some, nodeAt_cons_of_findTag hf]
  | case4 d s s' q hf => rw [readSegs_cons_of_none hf]; rfl

/-- The same for a path before it is split. -/
theorem readValue_eq_cells (d : LZData) (p : Text) :
    d.readValue p = (d.cells (segments p)).map Cell.value := by
  rw [cells_value d _ (segments_ne_nil p), readValue, read_eq]

/-- A write is a write on the map. -/
theorem cells_writeString (d : LZData) (p v : Text) :
    (d.writeString p v).cells = d.cells.write (segments p) v := by
  rw [writeString, write_eq, cells_writeSegs d _ v (segments_ne_nil p)]

/-! ### Sequences of writes -/

/-- The last write of a sequence. -/
theorem writes_append (d : LZData) (ops : List (Text × Text)) (op : Text × Text) :
    d.writes (ops ++ [op]) = (d.writes ops).writeString op.1 op.2 := by
  simp only [writes, List.foldl_append, List.foldl_cons, List.foldl_nil]

/-- A last write to the path is the one that counts. -/
theorem lastWrite_append_self (ops : List (Text × Text)) (p v : Text) :
    lastWrite (ops ++ [(p, v)]) p = some v := by
  simp only [lastWrite, List.reverse_append, List.reverse_singleton, List.singleton_append,
    List.find?_cons, beq_self_eq_true, Option.map_some]

/-- A last write to another path is not. -/
theorem lastWrite_append_of_ne {p : Text} {op : Text × Text} (h : op.1 ≠ p)
    (ops : List (Text × Text)) : lastWrite (ops ++ [op]) p = lastWrite ops p := by
  simp only [lastWrite, List.reverse_append, List.reverse_singleton, List.singleton_append,
    List.find?_cons, beq_eq_false_iff_ne.mpr h]

/-- A path that is there keeps its mark. Its value is the last write, unless the mark keeps it. By
induction on the writes from the last one. -/
theorem cells_writes_of_some (d : LZData) (ops : List (Text × Text)) {p : Text} {c : Cell}
    (h : d.cells (segments p) = some c) :
    (d.writes ops).cells (segments p) =
      some (if c.kept then c else ⟨(lastWrite ops p).getD c.value, false⟩) := by
  -- on the last write: the writes before it are those of the hypothesis
  induction ops using List.reverseRecOn with
  | nil =>
    obtain ⟨value, kept⟩ := c
    cases kept <;> exact h
  | append_singleton ops op ih =>
    rw [writes_append, cells_writeString]
    -- the last write goes to this path
    by_cases hp : op.1 = p
    · obtain ⟨q, v⟩ := op
      obtain rfl : q = p := hp
      rw [Cells.write_of_some ih, lastWrite_append_self]
      cases hkept : c.kept <;> simp [hkept]
    -- it goes to another one
    · rw [Cells.write_of_ne (fun hsegs => hp (segments_inj hsegs).symm) ih,
        lastWrite_append_of_ne hp]

/-- What a sequence of writes does, for every tree:

1. it does to the map what it does to the tree, and `read` returns what the map holds;
2. a path that was there before reads as its last write, unless its node is the first child of its
   parent. Then it reads as before. -/
theorem cells_writes (d : LZData) (ops : List (Text × Text)) :
    (d.writes ops).cells = ops.foldl (fun m op => m.write (segments op.1) op.2) d.cells ∧
      (∀ p, (d.writes ops).readValue p = ((d.writes ops).cells (segments p)).map Cell.value) ∧
      ∀ p c, d.cells (segments p) = some c → (d.writes ops).readValue p =
        some (if c.kept then c.value else (lastWrite ops p).getD c.value) := by
  refine ⟨?_, fun p => readValue_eq_cells _ p, ?_⟩
  · unfold writes
    induction ops generalizing d with
    | nil => rfl
    | cons op ops ih => rw [List.foldl_cons, List.foldl_cons, ih, cells_writeString]
  · intro p c h
    rw [readValue_eq_cells, cells_writes_of_some d ops h]
    cases c.kept <;> rfl

end LZData

end OnlineJudger
