import OnlineJudger.Proofs.LZData.ReadWrite

/-!
# `OnlineJudger.Proofs.LZData.WriteFrame`: what `write` leaves alone

`findsSame_writeSegs` covers the paths that a read finds before the write. This module adds
the paths that it does not find, and the nodes that no path needs to find.

* `readSegs_writeSegs_of_none`: a path that found nothing still finds nothing, unless the
  write has made its node on the way down.
* `Extends`: every node keeps its place, its tag and the order of its children. Only the node
  at one place may get another value.
-/

set_option autoImplicit false

namespace OnlineJudger.LZData

/-! ### Paths that found nothing -/

/-- A read of `q` finds in `d'` a node that `d` does not have, and its value is empty. -/
def FindsNew (d d' : LZData) (q : List Text) : Prop :=
  ∃ ptr, d'.readSegs q = some ptr ∧ d.nodeAt ptr = none ∧
    (d'.nodeAt ptr).map (·.value) = some []

/-- A new last child is found only under its own tag. -/
theorem findTag_addChild_of_ne {d : LZData} (c : LZData) {s : Text} (hne : c.tag ≠ s) :
    (d.addChild c).findTag s = d.findTag s := by
  unfold findTag addChild
  rw [List.findIdx?_append, List.findIdx?_singleton, if_neg (by simpa using hne)]
  cases d.children.findIdx? (fun c => c.tag == s) <;> rfl

/-- The children in front of a new last child stay. -/
theorem getChild_addChild {d : LZData} (c : LZData) {i : Nat} (hi : i < d.children.length) :
    (d.addChild c).getChild i = d.getChild i := by
  simp [getChild, addChild, List.getD_eq_getElem?_getD, List.getElem?_append_left hi]

/-- The other children stay when one is replaced. -/
theorem getChild_setChild_ne {d : LZData} {i j : Nat} (c : LZData) (hij : i ≠ j) :
    (d.setChild i c).getChild j = d.getChild j := by
  simp [getChild, setChild, List.getD_eq_getElem?_getD, List.getElem?_set_ne hij]

/-- The value of a node is not part of what a read below it finds. -/
theorem readSegs_setString (d : LZData) (v : Text) (q : List Text) :
    (d.setString v).readSegs q = d.readSegs q := by
  cases q with
  | nil => rfl
  | cons s q => rfl

/-- Below a node without children only the empty path finds something. -/
theorem readSegs_leaf {d : LZData} (h : d.children = []) {q : List Text} (hq : q ≠ []) :
    d.readSegs q = none := by
  cases q with
  | nil => exact absurd rfl hq
  | cons s q => simp [readSegs, findTag, h]

/-- A path goes on below the child that its first segment names. -/
theorem readSegs_cons_of_some {d : LZData} {s : Text} {i : Nat} (hf : d.findTag s = some i)
    (q : List Text) : d.readSegs (s :: q) = ((d.getChild i).readSegs q).map (i :: ·) := by
  rw [readSegs, hf]

/-- A path whose first segment names no child finds nothing. -/
theorem readSegs_cons_of_none {d : LZData} {s : Text} (hf : d.findTag s = none)
    (q : List Text) : d.readSegs (s :: q) = none := by
  rw [readSegs, hf]

/-- A read through a tag that names another child than the replaced one. -/
theorem readSegs_setChild_ne {d : LZData} {s a : Text} {i : Nat} {c : LZData} (q : List Text)
    (hf : d.findTag s = some i) (hc : c.tag = s) (ha : a ≠ s) :
    (d.setChild i c).readSegs (a :: q) = d.readSegs (a :: q) := by
  have hsame := findTag_setChild a (getChild_of_findTag hf) (hc.trans (getChild_tag hf).symm)
  cases hj : d.findTag a with
  | none => rw [readSegs_cons_of_none hj, readSegs_cons_of_none (hsame.trans hj)]
  | some j =>
    have hij : i ≠ j := by
      rintro rfl
      exact ha ((getChild_tag hj).symm.trans (getChild_tag hf))
    rw [readSegs_cons_of_some hj, readSegs_cons_of_some (hsame.trans hj),
      getChild_setChild_ne c hij]

/-- A new last child with another tag changes nothing for a path. -/
theorem readSegs_addChild_ne {d c : LZData} {a : Text} (q : List Text) (ha : c.tag ≠ a) :
    (d.addChild c).readSegs (a :: q) = d.readSegs (a :: q) := by
  have hsame := findTag_addChild_of_ne (d := d) c ha
  cases hj : d.findTag a with
  | none => rw [readSegs_cons_of_none hj, readSegs_cons_of_none (hsame.trans hj)]
  | some j =>
    rw [readSegs_cons_of_some hj, readSegs_cons_of_some (hsame.trans hj),
      getChild_addChild c (findTag_lt hj)]

/-- `enter` changes no other segment. -/
theorem readSegs_enter_ne {d : LZData} {s a : Text} (q : List Text) (ha : a ≠ s) :
    (d.enter s).1.readSegs (a :: q) = d.readSegs (a :: q) := by
  unfold enter
  cases d.findTag s with
  | none => exact readSegs_addChild_ne q (Ne.symm ha)
  | some i => rfl

/-- The node a found segment names is in the tree. -/
theorem nodeAt_cons_of_findTag {d : LZData} {s : Text} {i : Nat} (hf : d.findTag s = some i)
    (ptr : LZDataPtr) : d.nodeAt (i :: ptr) = (d.getChild i).nodeAt ptr := by
  rw [nodeAt, getChild_of_findTag hf]

/-- A new node below the replaced child is a new node of the tree. -/
theorem findsNew_setChild {d d' : LZData} {s : Text} {i : Nat} {c : LZData} {q : List Text}
    (hf : d'.findTag s = some i) (hc : c.tag = s)
    (hold : ∀ ptr, (d'.getChild i).nodeAt ptr = none → d.nodeAt (i :: ptr) = none)
    (h : FindsNew (d'.getChild i) c q) : FindsNew d (d'.setChild i c) (s :: q) := by
  obtain ⟨ptr, hread, hnone, hvalue⟩ := h
  refine ⟨i :: ptr, ?_, hold ptr hnone, ?_⟩
  · rw [readSegs_setChild q hf hc, hread, Option.map_some]
  · rw [nodeAt, getElem?_setChild_self c (findTag_lt hf)]
    exact hvalue

/-- A proper prefix of one segment is empty. -/
theorem not_prefix_singleton {a s : Text} {q : List Text} (hne : a :: q ≠ [s]) :
    ¬a :: q <+: [s] := by
  rw [List.cons_prefix_cons, List.prefix_nil]
  rintro ⟨rfl, rfl⟩
  exact hne rfl

/-- An overwritten value changes nothing for a path. -/
theorem readSegs_overwrite {d : LZData} {s : Text} {i : Nat} (hf : d.findTag s = some i)
    (v a : Text) (q : List Text) :
    (d.setChild i ((d.getChild i).setString v)).readSegs (a :: q) = d.readSegs (a :: q) := by
  have htag : ((d.getChild i).setString v).tag = s := getChild_tag hf
  by_cases has : a = s
  · subst has
    rw [readSegs_setChild q hf htag, readSegs_setString, ← readSegs_cons_of_some hf]
  · exact readSegs_setChild_ne q hf htag has

/-- An appended leaf is found by no path but its own tag. -/
theorem readSegs_append_of_none {d : LZData} {s a : Text} (v : Text) {q : List Text}
    (hne : a :: q ≠ [s]) (hq : d.readSegs (a :: q) = none) :
    (d.addChild ⟨s, v, []⟩).readSegs (a :: q) = none := by
  by_cases has : a = s
  · subst has
    have hqne : q ≠ [] := by
      rintro rfl
      exact hne rfl
    cases hf : d.findTag a with
    | none =>
      have hnew : (d.addChild ⟨a, v, []⟩).getChild d.children.length = ⟨a, v, []⟩ := by
        simp [getChild, addChild]
      rw [readSegs_cons_of_some (findTag_addChild_self ⟨a, v, []⟩ hf), hnew,
        readSegs_leaf rfl hqne, Option.map_none]
    | some i =>
      rw [readSegs_cons_of_some (findTag_addChild_of_some _ hf),
        getChild_addChild _ (findTag_lt hf), ← readSegs_cons_of_some hf, hq]
  · exact (readSegs_addChild_ne q (Ne.symm has)).trans hq

/-- A path that found nothing before a write to another path finds nothing after it, except that a
proper prefix of the written path finds the new node that the write made there. By induction on the
written path, for every node at once. -/
theorem readSegs_writeSegs_of_none (d : LZData) (p : List Text) (v : Text) (q : List Text)
    (hne : q ≠ p) (hq : d.readSegs q = none) :
    (q <+: p → FindsNew d (d.writeSegs p v).1 q) ∧
      (¬q <+: p → (d.writeSegs p v).1.readSegs q = none) := by
  fun_induction writeSegs d p v generalizing q with
  | case1 d v =>
    refine ⟨fun h => ?_, fun _ => hq⟩
    exact absurd (List.prefix_nil.mp h) hne
  | case2 d s v k hf =>
    cases q with
    | nil => simp [readSegs] at hq
    | cons a q =>
      refine ⟨fun h => absurd h (not_prefix_singleton hne), fun _ => ?_⟩
      exact (readSegs_overwrite hf v a q).trans hq
  | case3 d s v hnot =>
    cases q with
    | nil => simp [readSegs] at hq
    | cons a q =>
      refine ⟨fun h => absurd h (not_prefix_singleton hne), fun _ => ?_⟩
      exact readSegs_append_of_none v hne hq
  | case4 d s s' rest v d' i henter child ptr hw ih =>
    cases q with
    | nil => simp [readSegs] at hq
    | cons a q =>
      obtain ⟨hfind, hnone, hsome⟩ := enter_spec d s
      have hother := readSegs_enter_ne (d := d) (s := s) (a := a) q
      obtain ⟨htag, hvalue⟩ := writeSegs_tag_value (d'.getChild i) (s' :: rest) v
      rw [henter] at hfind hnone hsome hother
      rw [hw] at ih htag hvalue
      have hchild := htag.trans (getChild_tag hfind)
      by_cases has : a = s
      · subst has
        have hread := readSegs_setChild q hfind hchild
        cases hf : d.findTag a with
        | none =>
          -- the path enters the new child, which has no children yet
          have hi : d.children.length = i := by
            unfold enter at henter
            rw [hf] at henter
            exact congrArg Prod.snd henter
          have hold : ∀ ptr, d.nodeAt (i :: ptr) = none := by
            intro ptr
            rw [nodeAt, ← hi, List.getElem?_eq_none (Nat.le_refl _)]
          have hleaf : (d'.getChild i).children = [] := by rw [hnone hf]
          by_cases hqnil : q = []
          · subst hqnil
            refine ⟨fun _ => ⟨[i], ?_, hold [], ?_⟩, fun h => absurd h (by simp)⟩
            · rw [hread]
              rfl
            · rw [nodeAt, getElem?_setChild_self child (findTag_lt hfind)]
              exact congrArg some (hvalue.trans (congrArg LZData.value (hnone hf)))
          · obtain ⟨hnew, hnot⟩ := ih q (by simpa using hne) (readSegs_leaf hleaf hqnil)
            refine ⟨fun h => ?_, fun h => ?_⟩
            · exact findsNew_setChild hfind hchild (fun ptr _ => hold ptr)
                (hnew (List.cons_prefix_cons.mp h).2)
            · rw [hread, hnot (by simpa using h), Option.map_none]
        | some j =>
          -- the path enters a child that was there
          obtain ⟨rfl, rfl⟩ := Prod.mk.inj (hsome j hf)
          rw [readSegs_cons_of_some hf, Option.map_eq_none_iff] at hq
          obtain ⟨hnew, hnot⟩ := ih q (by simpa using hne) hq
          refine ⟨fun h => ?_, fun h => ?_⟩
          · refine findsNew_setChild hfind hchild (fun ptr hptr => ?_)
              (hnew (List.cons_prefix_cons.mp h).2)
            rw [nodeAt_cons_of_findTag hf, hptr]
          · rw [hread, hnot (by simpa using h), Option.map_none]
      · refine ⟨fun h => absurd (List.cons_prefix_cons.mp h).1 has, fun _ => ?_⟩
        rw [readSegs_setChild_ne q hfind hchild has, hother has, hq]

/-! ### Nodes that stay -/

/-- Every node of `d` has the same place and tag in `d'`, and its children come first among
the children it has there, in the same order. Only the node at `place` may have another
value. -/
def Extends (place : LZDataPtr) (d d' : LZData) : Prop :=
  ∀ ptr n, d.nodeAt ptr = some n →
    ∃ n', d'.nodeAt ptr = some n' ∧ n'.tag = n.tag ∧ (ptr ≠ place → n'.value = n.value) ∧
      n.children.map (·.tag) <+: n'.children.map (·.tag)

/-- No node is changed. -/
theorem Extends.refl (place : LZDataPtr) (d : LZData) : Extends place d d :=
  fun _ n h => ⟨n, h, rfl, fun _ => rfl, List.prefix_refl _⟩

/-- Two changes, each with no more than the value at the place. -/
theorem Extends.trans {place : LZDataPtr} {d d' d'' : LZData} (h : Extends place d d')
    (h' : Extends place d' d'') : Extends place d d'' := by
  intro ptr n hn
  obtain ⟨n', hn', htag, hvalue, hchildren⟩ := h ptr n hn
  obtain ⟨n'', hn'', htag', hvalue', hchildren'⟩ := h' ptr n' hn'
  exact ⟨n'', hn'', htag'.trans htag, fun hp => (hvalue' hp).trans (hvalue hp),
    hchildren.trans hchildren'⟩

/-- A new last child moves no node. -/
theorem extends_addChild (place : LZDataPtr) (d c : LZData) : Extends place d (d.addChild c) := by
  intro ptr n hn
  cases ptr with
  | nil =>
    cases hn
    exact ⟨d.addChild c, rfl, rfl, fun _ => rfl, by simp [addChild]⟩
  | cons i ptr =>
    refine ⟨n, ?_, rfl, fun _ => rfl, List.prefix_refl _⟩
    rw [nodeAt] at hn ⊢
    split at hn
    · rename_i c' hc'
      have hlt := (List.getElem?_eq_some_iff.mp hc').1
      rw [addChild, List.getElem?_append_left hlt, hc']
      exact hn
    · exact absurd hn (by simp)

/-- What stays below a replaced child stays in the tree. A pointer leads to the node itself, into
the replaced child, or into another one. -/
theorem extends_setChild {place : LZDataPtr} {d c : LZData} {i : Nat}
    (hi : i < d.children.length) (htag : c.tag = (d.getChild i).tag)
    (h : Extends place (d.getChild i) c) : Extends (i :: place) d (d.setChild i c) := by
  have hget : d.children[i]? = some (d.getChild i) := by
    simp [getChild, List.getD_eq_getElem?_getD, List.getElem?_eq_getElem hi]
  -- any node that was there, by the pointer that leads to it
  intro ptr n hn
  cases ptr with
  -- the node itself: its children keep their tags
  | nil =>
    cases hn
    refine ⟨d.setChild i c, rfl, rfl, fun _ => rfl, [], ?_⟩
    rw [List.append_nil, map_tag_setChild hget htag]
  | cons j ptr =>
    -- below it: in the child that is replaced, or beside it
    rw [nodeAt] at hn
    by_cases hij : i = j
    · subst hij
      rw [hget] at hn
      obtain ⟨n', hn', htag', hvalue, hchildren⟩ := h ptr n hn
      refine ⟨n', ?_, htag', fun hp => hvalue (by simpa using hp), hchildren⟩
      rw [nodeAt, getElem?_setChild_self c hi]
      exact hn'
    · refine ⟨n, ?_, rfl, fun _ => rfl, List.prefix_refl _⟩
      rw [nodeAt, getElem?_setChild_ne c hij]
      exact hn

/-- A write moves no node, and sets no value but that of the node it returns. By induction on the
path, with a replaced child for each segment. -/
theorem extends_writeSegs (d : LZData) (p : List Text) (v : Text) :
    Extends (d.writeSegs p v).2 d (d.writeSegs p v).1 := by
  -- on the recursion of `writeSegs`
  fun_induction writeSegs d p v with
  | case1 d v => exact Extends.refl _ _
  -- the last name is there: its node gets the value
  | case2 d s v k hf =>
    refine extends_setChild (findTag_lt hf) rfl ?_
    intro ptr n hn
    cases ptr with
    | nil =>
      cases hn
      exact ⟨_, rfl, rfl, fun hp => absurd rfl hp, List.prefix_refl _⟩
    | cons j ptr => exact ⟨n, hn, rfl, fun _ => rfl, List.prefix_refl _⟩
  -- the last name is missing: a child is added at the end
  | case3 d s v hnot => exact extends_addChild _ _ _
  -- a name with others behind it: `enter` keeps the node or adds a child
  | case4 d s s' rest v d' i henter child ptr hw ih =>
    obtain ⟨hfind, -, -⟩ := enter_spec d s
    have htag := (writeSegs_tag_value (d'.getChild i) (s' :: rest) v).1
    rw [henter] at hfind
    rw [hw] at ih htag
    have hkeep : Extends (i :: ptr) d d' := by
      unfold enter at henter
      split at henter <;> cases henter
      · exact Extends.refl _ _
      · exact extends_addChild _ _ _
    exact hkeep.trans (extends_setChild (findTag_lt hfind) htag ih)

/-! ### The frame of `write` -/

/-- `write(p, v)` changes only its own path. For every other path `q`:

1. what `read(q)` found, it still finds, with the same value;
2. where `read(q)` found nothing, it finds nothing, unless `q` is a proper prefix of `p`:
   then it finds a new node with the empty value.

No node is moved: each keeps its tag, and its children in their order. -/
theorem write_frame (d : LZData) (p v : Text) :
    (∀ q, segments q ≠ segments p →
      (∀ ptr, d.read q = some ptr →
        (d.write p v).1.read q = some ptr ∧
          ((d.write p v).1.nodeAt ptr).map (·.value) = (d.nodeAt ptr).map (·.value)) ∧
      (d.read q = none →
        (segments q <+: segments p →
          ∃ ptr, (d.write p v).1.read q = some ptr ∧ d.nodeAt ptr = none ∧
            ((d.write p v).1.nodeAt ptr).map (·.value) = some []) ∧
        (¬segments q <+: segments p → (d.write p v).1.read q = none))) ∧
    Extends (d.write p v).2 d (d.write p v).1 := by
  simp only [read_eq, write_eq]
  refine ⟨fun q hne => ⟨?_, ?_⟩, extends_writeSegs d (segments p) v⟩
  · exact findsSame_writeSegs d (segments p) v (segments q) hne
  · exact readSegs_writeSegs_of_none d (segments p) v (segments q) hne

/-- The frame of a write of `b/c` beside a child `a`: `a` stays, `b` is new, and `c` is still
not found. -/
theorem write_frame_beside_child :
    let d : LZData := ⟨"root".toList, [], [⟨"a".toList, "1".toList, []⟩]⟩
    let d' := (d.write "b/c".toList "2".toList).1
    d'.read "a".toList = some [0] ∧
      (∃ ptr, d'.read "b".toList = some ptr ∧ (d'.nodeAt ptr).map (·.value) = some []) ∧
      d'.read "c".toList = none := by
  have hp : segments "b/c".toList = ["b".toList, "c".toList] := by
    rw [segments_of_some (show findFirstOf "b/c".toList '/' = some 1 by decide)]
    exact congrArg _ (segments_of_none (by decide))
  have ha : segments "a".toList = ["a".toList] := segments_of_none (by decide)
  have hb : segments "b".toList = ["b".toList] := segments_of_none (by decide)
  have hc : segments "c".toList = ["c".toList] := segments_of_none (by decide)
  intro d d'
  obtain ⟨hframe, -⟩ := write_frame d "b/c".toList "2".toList
  obtain ⟨hfound, -⟩ := hframe "a".toList (by rw [ha, hp]; decide)
  obtain ⟨-, hfront⟩ := hframe "b".toList (by rw [hb, hp]; decide)
  obtain ⟨-, hnothing⟩ := hframe "c".toList (by rw [hc, hp]; decide)
  rw [read_eq, ha] at hfound
  -- `a` is beside the path, `b` on it, `c` nowhere
  rw [read_eq, hb, hp] at hfront
  rw [read_eq, hc, hp] at hnothing
  obtain ⟨ptr, hread, -, hvalue⟩ := (hfront (by decide)).1 (by decide)
  exact ⟨(hfound [0] (by decide)).1, ⟨ptr, hread, hvalue⟩, (hnothing (by decide)).2 (by decide)⟩

end OnlineJudger.LZData
