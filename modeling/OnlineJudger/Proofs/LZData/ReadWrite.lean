import OnlineJudger.LZData.LZData

/-!
# `OnlineJudger.Proofs.LZData.ReadWrite`: `write` followed by `read`

`LZData::read` and `LZData::write` split their path at the first slash and recurse on the
rest. `segments` is the whole split. `readSegs` and `writeSegs` are the same recursions over
the list of segments, and `read_eq` and `write_eq` connect them to the code.

* `readSegs_writeSegs_iff`: after `write(p, v)`, `read(p)` returns the node that `write`
  returned, unless the last segment of `p` names the first child of the node that the other
  segments name (`HitsFirstChild`). There `write` appends a second child, and `read` still
  finds the first one.
* `findsSame_writeSegs`: a write to another path moves no node that a read finds, and
  changes no value there.
-/

set_option autoImplicit false

namespace OnlineJudger.LZData

/-! ### Resolving one segment -/

/-- The position of the first child with this tag. Later ones with the same tag are never found. -/
def findTag (d : LZData) (s : Text) : Option Nat := d.children.findIdx? (fun c => c.tag == s)

/-- `findChild` is `findTag` with `-1` for "not found". -/
theorem findChild_eq (d : LZData) (s : Text) :
    d.findChild s = match d.findTag s with | some i => (i : Int) | none => -1 := by
  unfold findChild findNextChild findTag countChildren
  cases hc : d.children with
  | nil => simp
  | cons c cs =>
    have hrange : ¬(((-1 : Int) + 1 < 0) ∨ ((-1 : Int) + 1 ≥ ((c :: cs).length : Nat))) := by
      simp only [List.length_cons]
      omega
    simp only [if_neg hrange, show ((-1 : Int) + 1).toNat = 0 from rfl, List.drop_zero]
    cases (c :: cs).findIdx? (fun c => c.tag == s) <;> simp

/-- A child that is found has its position. -/
theorem findChild_of_some {d : LZData} {s : Text} {i : Nat} (h : d.findTag s = some i) :
    d.findChild s = i := by
  rw [findChild_eq, h]

/-- Otherwise the result is `-1`. -/
theorem findChild_of_none {d : LZData} {s : Text} (h : d.findTag s = none) :
    d.findChild s = -1 := by
  rw [findChild_eq, h]

/-- A found position is inside the list of children. -/
theorem findTag_lt {d : LZData} {s : Text} {i : Nat} (h : d.findTag s = some i) :
    i < d.children.length :=
  (List.findIdx?_eq_some_iff_getElem.mp h).1

/-- The child at a found position. -/
theorem getChild_of_findTag {d : LZData} {s : Text} {i : Nat} (h : d.findTag s = some i) :
    d.children[i]? = some (d.getChild i) := by
  have hi := findTag_lt h
  simp [getChild, List.getD_eq_getElem?_getD, List.getElem?_eq_getElem hi]

/-- The child at a found position has the tag. -/
theorem getChild_tag {d : LZData} {s : Text} {i : Nat} (h : d.findTag s = some i) :
    (d.getChild i).tag = s := by
  obtain ⟨hi, htag, -⟩ := List.findIdx?_eq_some_iff_getElem.mp h
  have hget := getChild_of_findTag h
  rw [List.getElem?_eq_getElem hi, Option.some.injEq] at hget
  rw [← hget]
  simpa using htag

/-- A new last child is found under its tag when no other child has that tag. -/
theorem findTag_addChild_self {d : LZData} (c : LZData) (h : d.findTag c.tag = none) :
    (d.addChild c).findTag c.tag = some d.children.length := by
  unfold findTag addChild at *
  rw [List.findIdx?_append, h]
  simp [List.findIdx?_cons]

/-- A new last child hides no child. -/
theorem findTag_addChild_of_some {d : LZData} (c : LZData) {s : Text} {i : Nat}
    (h : d.findTag s = some i) : (d.addChild c).findTag s = some i := by
  unfold findTag addChild at *
  rw [List.findIdx?_append, h]
  rfl

/-- Replacing a child by one with the same tag keeps the row of tags. -/
theorem map_tag_setChild {d c c' : LZData} {i : Nat} (hc : d.children[i]? = some c)
    (htag : c'.tag = c.tag) :
    (d.setChild i c').children.map (·.tag) = d.children.map (·.tag) := by
  rw [setChild, Int.toNat_natCast, List.map_set, htag]
  apply List.ext_getElem?
  intro j
  rw [List.getElem?_set]
  split
  · rename_i hij
    subst hij
    split <;> simp_all
  · rfl

/-- Replacing a child by one with the same tag keeps every search result. -/
theorem findTag_setChild {d : LZData} {i : Nat} {c c' : LZData} (s : Text)
    (hc : d.children[i]? = some c) (htag : c'.tag = c.tag) :
    (d.setChild i c').findTag s = d.findTag s := by
  -- a search reads the tags only
  have hfind : ∀ d : LZData, d.findTag s = (d.children.map (·.tag)).findIdx? (· == s) := by
    intro d
    rw [List.findIdx?_map]
    rfl
  rw [hfind, hfind, map_tag_setChild hc htag]

/-- The replaced child is the new one. -/
theorem getElem?_setChild_self {d : LZData} {i : Nat} (c : LZData) (hi : i < d.children.length) :
    (d.setChild i c).children[i]? = some c := by
  simp [setChild, hi]

/-- The others stay. -/
theorem getElem?_setChild_ne {d : LZData} {i j : Nat} (c : LZData) (hij : i ≠ j) :
    (d.setChild i c).children[j]? = d.children[j]? := by
  simp [setChild, List.getElem?_set_ne hij]

/-! ### The recursion over segments -/

/-- The segments of a slash-separated path. -/
def segments (tag : Text) : List Text := tag.splitOn '/'

/-- `read` over the list of segments. -/
def readSegs : LZData → List Text → Option LZDataPtr
  | _, [] => some []
  | d, s :: rest =>
    match d.findTag s with
    | some i => ((d.getChild i).readSegs rest).map (i :: ·)
    | none => none

/-- The child a write descends into: the first one with the tag, or a new last one. -/
def enter (d : LZData) (s : Text) : LZData × Nat :=
  match d.findTag s with
  | some i => (d, i)
  | none => (d.addChild ⟨s, [], []⟩, d.children.length)

/-- `write` over the list of segments. -/
def writeSegs : LZData → List Text → Text → LZData × LZDataPtr
  | d, [], _ => (d, [])
  | d, [s], value =>
    match d.findTag s with
    | some (i + 1) =>
      (d.setChild (i + 1 : Nat) ((d.getChild (i + 1 : Nat)).setString value), [i + 1])
    | _ => (d.addChild ⟨s, value, []⟩, [d.children.length])
  | d, s :: s' :: rest, value =>
    let (d, i) := d.enter s
    let (child, ptr) := (d.getChild i).writeSegs (s' :: rest) value
    (d.setChild i child, i :: ptr)

/-- The last segment names the first child of the node that the other segments name. -/
def HitsFirstChild : LZData → List Text → Prop
  | _, [] => False
  | d, [s] => d.findTag s = some 0
  | d, s :: s' :: rest =>
    match d.findTag s with
    | some i => (d.getChild i).HitsFirstChild (s' :: rest)
    | none => False

/-- A path without a slash is one segment. -/
theorem segments_of_none {tag : Text} (h : findFirstOf tag '/' = none) : segments tag = [tag] := by
  refine List.splitOnP_eq_singleton ?_
  intro c hc
  have := List.findIdx?_eq_none_iff.mp h c hc
  simpa using this

/-- The first slash ends the first segment. -/
theorem segments_of_some {tag : Text} {pos : Nat} (h : findFirstOf tag '/' = some pos) :
    segments tag = tag.take pos :: segments (tag.drop (pos + 1)) := by
  obtain ⟨hpos, hslash, hbefore⟩ := List.findIdx?_eq_some_iff_getElem.mp h
  have hsplit : tag = tag.take pos ++ tag[pos] :: tag.drop (pos + 1) := by
    rw [← List.drop_eq_getElem_cons hpos, List.take_append_drop]
  have htake : ∀ c ∈ tag.take pos, (c == '/') = false := by
    intro c hc
    obtain ⟨j, hj, rfl⟩ := List.mem_take_iff_getElem.mp hc
    have := hbefore j (by omega)
    simpa using this
  have := List.splitOnP_append_cons_of_forall_mem htake tag[pos] (by simpa using hslash)
    (tag.drop (pos + 1))
  rw [← hsplit] at this
  exact this

/-- Even the empty path has a segment, the empty one. -/
theorem segments_ne_nil (tag : Text) : segments tag ≠ [] := List.splitOn_ne_nil _ _

/-- `read` is `readSegs` on the segments of its path. By induction on the length of the path, which
is shorter behind a slash. -/
theorem read_eq (d : LZData) (tag : Text) : d.read tag = d.readSegs (segments tag) := by
  -- on the recursion of `read`; the two searches for a child agree
  fun_induction LZData.read d tag with
  -- the last name, with no child of this name
  | case1 d tag hpos i hneg =>
    rw [segments_of_none hpos, readSegs]
    cases hf : d.findTag tag with
    | none => rfl
    | some k =>
      have := findChild_of_some hf
      omega
  -- the last name, with its child
  | case2 d tag hpos i hneg =>
    rw [segments_of_none hpos, readSegs]
    cases hf : d.findTag tag with
    | none =>
      have := findChild_of_none hf
      omega
    | some k => simp [readSegs, i, findChild_of_some hf]
  -- a name with others behind it, and no child of this name
  | case3 d tag pos hpos i hneg =>
    rw [segments_of_some hpos, readSegs]
    cases hf : d.findTag (tag.take pos) with
    | none => rfl
    | some k =>
      have := findChild_of_some hf
      omega
  -- the child that the rest of the path is read in
  | case4 d tag pos hpos i hneg ih =>
    rw [segments_of_some hpos, readSegs]
    cases hf : d.findTag (tag.take pos) with
    | none =>
      have := findChild_of_none hf
      omega
    | some k =>
      rw [ih]
      simp [i, findChild_of_some hf]

/-- `write` is `writeSegs` on the segments of its path, by the same induction. The first slash of
the path is where its first segment ends. -/
theorem write_eq (d : LZData) (tag value : Text) :
    d.write tag value = d.writeSegs (segments tag) value := by
  fun_induction LZData.write d tag value with
  | case1 d tag hpos i hgt =>
    rw [segments_of_none hpos, writeSegs]
    cases hf : d.findTag tag with
    | none =>
      have := findChild_of_none hf
      omega
    | some k =>
      have hk := findChild_of_some hf
      cases k with
      | zero => omega
      | succ k => simp [i, hk]
  | case2 d tag hpos i hle =>
    rw [segments_of_none hpos, writeSegs]
    cases hf : d.findTag tag with
    | none => simp [countChildren]
    | some k =>
      have hk := findChild_of_some hf
      cases k with
      | zero => simp [countChildren]
      | succ k => omega
  | case3 d tag pos hpos lName rName i d' i' hd child ptr hw ih =>
    -- whichever way the code got there, it goes on at a real index
    have henter : d.enter lName = (d', i'.toNat) ∧ 0 ≤ i' := by
      unfold enter
      cases hf : d.findTag lName with
      | none =>
        have hneg : i < 0 := by
          have := findChild_of_none hf
          omega
        rw [dif_pos hneg, Prod.mk.injEq] at hd
        obtain ⟨rfl, rfl⟩ := hd
        simp [countChildren]
      | some k =>
        have hk : i = k := findChild_of_some hf
        rw [dif_neg (by omega), Prod.mk.injEq] at hd
        obtain ⟨rfl, rfl⟩ := hd
        simp [hk]
    obtain ⟨s, rest, hrest⟩ := List.exists_cons_of_ne_nil (segments_ne_nil rName)
    have hi' : ((i'.toNat : Nat) : Int) = i' := Int.toNat_of_nonneg henter.2
    rw [segments_of_some hpos, hrest, writeSegs, henter.1, ← hrest]
    simp only [hi', ← ih, hw]

/-! ### Reading back a write -/

/-- A write changes neither the tag nor the value of the node it is called on. -/
theorem writeSegs_tag_value (d : LZData) (p : List Text) (v : Text) :
    (d.writeSegs p v).1.tag = d.tag ∧ (d.writeSegs p v).1.value = d.value := by
  fun_induction writeSegs d p v with
  | case1 => exact ⟨rfl, rfl⟩
  | case2 => exact ⟨rfl, rfl⟩
  | case3 => exact ⟨rfl, rfl⟩
  | case4 d s s' rest v d' i henter child ptr hw ih =>
    unfold enter at henter
    split at henter <;> cases henter <;> exact ⟨rfl, rfl⟩

/-- `enter` finds its child. A new child is empty. -/
theorem enter_spec (d : LZData) (s : Text) :
    (d.enter s).1.findTag s = some (d.enter s).2 ∧
      (d.findTag s = none → (d.enter s).1.getChild (d.enter s).2 = ⟨s, [], []⟩) ∧
      ∀ i, d.findTag s = some i → d.enter s = (d, i) := by
  unfold enter
  cases hf : d.findTag s with
  | none =>
    refine ⟨findTag_addChild_self ⟨s, [], []⟩ hf, ?_, by simp⟩
    intro _
    simp [getChild, addChild]
  | some i => simp [hf]

/-- A node without children has no first child to hit. -/
theorem not_hitsFirstChild_of_leaf {d : LZData} (h : d.children = []) (p : List Text) :
    ¬d.HitsFirstChild p := by
  have hf : ∀ s, d.findTag s = none := by simp [findTag, h]
  match p with
  | [] => exact id
  | [s] => simp [HitsFirstChild, hf]
  | s :: s' :: rest => simp [HitsFirstChild, hf]

/-- A hit below an entered child is a hit of the whole path. -/
theorem hitsFirstChild_enter (d : LZData) (s s' : Text) (rest : List Text) :
    d.HitsFirstChild (s :: s' :: rest) ↔
      ((d.enter s).1.getChild (d.enter s).2).HitsFirstChild (s' :: rest) := by
  obtain ⟨-, hnone, hsome⟩ := enter_spec d s
  rw [HitsFirstChild]
  cases hf : d.findTag s with
  | none =>
    rw [hnone hf]
    simpa using not_hitsFirstChild_of_leaf rfl (s' :: rest)
  | some i => rw [hsome i hf]

/-- Replacing the child a segment names, by a child with the same tag, and reading below. -/
theorem readSegs_setChild {d : LZData} {s : Text} {i : Nat} {c : LZData} (rest : List Text)
    (hf : d.findTag s = some i) (hc : c.tag = s) :
    (d.setChild i c).readSegs (s :: rest) = (c.readSegs rest).map (i :: ·) := by
  have hget := getChild_of_findTag hf
  have hf' : (d.setChild i c).findTag s = some i := by
    rw [findTag_setChild s hget (hc.trans (getChild_tag hf).symm), hf]
  have hchild : (d.setChild i c).getChild i = c := by
    have := getChild_of_findTag hf'
    rw [getElem?_setChild_self c (findTag_lt hf), Option.some.injEq] at this
    exact this.symm
  rw [readSegs, hf']
  simp only [hchild]

/-- The node that `write` returns carries the written value. By induction on the path. -/
theorem nodeAt_writeSegs (d : LZData) (p : List Text) (v : Text) (hp : p ≠ []) :
    ((d.writeSegs p v).1.nodeAt (d.writeSegs p v).2).map (·.value) = some v := by
  fun_induction writeSegs d p v with
  | case1 => exact absurd rfl hp
  | case2 d s v k hf =>
    rw [nodeAt, getElem?_setChild_self _ (findTag_lt hf)]
    rfl
  | case3 d s v => simp [nodeAt, addChild]
  | case4 d s s' rest v d' i henter child ptr hw ih =>
    obtain ⟨hfind, -, -⟩ := enter_spec d s
    rw [henter] at hfind
    rw [hw] at ih
    rw [nodeAt, getElem?_setChild_self _ (findTag_lt hfind)]
    exact ih (by simp)

/-- The node that `write` returns does not depend on the value. -/
theorem writeSegs_ptr (d : LZData) (p : List Text) (v v' : Text) :
    (d.writeSegs p v).2 = (d.writeSegs p v').2 := by
  fun_induction writeSegs d p v with
  | case1 => rfl
  | case2 d s v k hf => simp only [writeSegs, hf]
  | case3 d s v hf =>
    unfold writeSegs
    split
    · exact absurd ‹_› (hf _)
    · rfl
  | case4 d s s' rest v d' i henter child ptr hw ih =>
    rw [hw] at ih
    rw [writeSegs, henter]
    exact congrArg (i :: ·) ih

/-- Two values lead to two trees, because each of them can be read at the returned node. -/
theorem write_value_injective {d : LZData} {tag v v' : Text}
    (h : (d.write tag v).1 = (d.write tag v').1) : v = v' := by
  rw [write_eq, write_eq] at h
  have hv := nodeAt_writeSegs d (segments tag) v (segments_ne_nil tag)
  have hv' := nodeAt_writeSegs d (segments tag) v' (segments_ne_nil tag)
  rw [h, writeSegs_ptr d (segments tag) v v', hv'] at hv
  exact (Option.some.inj hv).symm

/-- After `write(p, v)`, `read(p)` returns the node that `write` returned, exactly when the last
segment does not hit a first child. By induction on the path, with `enter` for the segments on the
way. -/
theorem readSegs_writeSegs_iff (d : LZData) (p : List Text) (v : Text) :
    (d.writeSegs p v).1.readSegs p = some (d.writeSegs p v).2 ↔ ¬d.HitsFirstChild p := by
  fun_induction writeSegs d p v with
  | case1 d => simp [readSegs, HitsFirstChild]
  | case2 d s v k hf =>
    -- a later child is overwritten in its place
    have hread := readSegs_setChild (c := (d.getChild (k + 1 : Nat)).setString v) [] hf
      (getChild_tag hf)
    rw [hread]
    simp [readSegs, HitsFirstChild, hf]
  | case3 d s v hne =>
    cases hf : d.findTag s with
    | none =>
      rw [readSegs, findTag_addChild_self ⟨s, v, []⟩ hf]
      simp [readSegs, HitsFirstChild, hf]
    | some i =>
      -- The first child has the tag: `read` returns it, and not the appended one.
      cases i with
      | succ k => exact absurd hf (hne k)
      | zero =>
        have hlen := findTag_lt hf
        rw [readSegs, findTag_addChild_of_some _ hf]
        simp only [readSegs, Option.map_some, Option.some.injEq, List.cons.injEq, HitsFirstChild,
          hf, not_true_eq_false, iff_false]
        omega
  | case4 d s s' rest v d' i henter child ptr hw ih =>
    obtain ⟨hfind, -, -⟩ := enter_spec d s
    have hhit := hitsFirstChild_enter d s s' rest
    rw [henter] at hfind hhit
    have htag := (writeSegs_tag_value (d'.getChild i) (s' :: rest) v).1
    rw [hw] at ih htag
    -- both recursions go through the entered child
    rw [readSegs_setChild _ hfind (htag.trans (getChild_tag hfind)), hhit, ← ih]
    simp

/-! ### A write leaves the other paths alone -/

/-- What a read of `q` finds in `d`, it also finds in `d'`: the same node, with the same
value. -/
def FindsSame (d d' : LZData) (q : List Text) : Prop :=
  ∀ ptr, d.readSegs q = some ptr →
    d'.readSegs q = some ptr ∧ (d'.nodeAt ptr).map (·.value) = (d.nodeAt ptr).map (·.value)

/-- Two changes in a row. -/
theorem FindsSame.trans {d d' d'' : LZData} {q : List Text} (h : FindsSame d d' q)
    (h' : FindsSame d' d'' q) : FindsSame d d'' q := by
  intro ptr hptr
  obtain ⟨hread, hvalue⟩ := h ptr hptr
  obtain ⟨hread', hvalue'⟩ := h' ptr hread
  exact ⟨hread', hvalue'.trans hvalue⟩

/-- The empty path finds the node itself. -/
theorem findsSame_nil {d d' : LZData} (h : d'.value = d.value) : FindsSame d d' [] := by
  intro ptr hptr
  cases hptr
  exact ⟨rfl, by simp [nodeAt, h]⟩

/-- A path is followed through its first child. -/
theorem findsSame_cons {d d' : LZData} {s : Text} {q : List Text}
    (htag : ∀ i, d.findTag s = some i → d'.findTag s = some i)
    (hchild : ∀ i, d.findTag s = some i → FindsSame (d.getChild i) (d'.getChild i) q) :
    FindsSame d d' (s :: q) := by
  intro ptr hptr
  rw [readSegs] at hptr
  cases hf : d.findTag s with
  | none => simp [hf] at hptr
  | some i =>
    simp only [hf, Option.map_eq_some_iff] at hptr
    obtain ⟨ptr', hread, rfl⟩ := hptr
    have hf' := htag i hf
    obtain ⟨hread', hvalue⟩ := hchild i hf ptr' hread
    refine ⟨?_, ?_⟩
    · rw [readSegs, hf']
      simp [hread']
    · rw [nodeAt, nodeAt, getChild_of_findTag hf, getChild_of_findTag hf']
      exact hvalue

/-- Nothing has changed. -/
theorem FindsSame.refl (d : LZData) (q : List Text) : FindsSame d d q :=
  fun _ h => ⟨h, rfl⟩

/-- A new last child changes nothing a read finds. -/
theorem findsSame_addChild (d c : LZData) (q : List Text) : FindsSame d (d.addChild c) q := by
  cases q with
  | nil => exact findsSame_nil rfl
  | cons s q =>
    refine findsSame_cons (fun i hi => findTag_addChild_of_some c hi) ?_
    intro i hi
    have hget : (d.addChild c).getChild i = d.getChild i := by
      have hlt := findTag_lt hi
      simp [getChild, addChild, List.getD_eq_getElem?_getD, List.getElem?_append_left hlt]
    rw [hget]
    exact FindsSame.refl _ _

/-- Replacing the child `s` names changes only what is read through `s`. The child keeps its tag, so
every other name finds what it found before. -/
theorem findsSame_setChild {d : LZData} {s : Text} {i : Nat} {c : LZData} {q : List Text}
    (hf : d.findTag s = some i) (hc : c.tag = s)
    (hbelow : ∀ q', q = s :: q' → FindsSame (d.getChild i) c q') :
    FindsSame d (d.setChild i c) q := by
  have hget := getChild_of_findTag hf
  have hfind : ∀ a, (d.setChild i c).findTag a = d.findTag a := fun a =>
    findTag_setChild a hget (hc.trans (getChild_tag hf).symm)
  cases q with
  | nil => exact findsSame_nil rfl
  | cons a q =>
    refine findsSame_cons (fun j hj => (hfind a).trans hj) ?_
    intro j hj
    have hget' := getChild_of_findTag ((hfind a).trans hj)
    by_cases hij : i = j
    -- the path goes through the child that was replaced
    · subst hij
      have has : a = s := (getChild_tag hj).symm.trans (getChild_tag hf)
      rw [getElem?_setChild_self c (findTag_lt hf), Option.some.injEq] at hget'
      rw [← hget']
      exact hbelow q (by rw [has])
    · rw [getElem?_setChild_ne c hij, getChild_of_findTag hj, Option.some.injEq] at hget'
      rw [← hget']
      exact FindsSame.refl _ _

/-- A new value at a node changes nothing that is read below it. -/
theorem findsSame_setString (d : LZData) (v : Text) {q : List Text} (hq : q ≠ []) :
    FindsSame d (d.setString v) q := by
  cases q with
  | nil => exact absurd rfl hq
  | cons s q => exact findsSame_cons (fun i hi => hi) (fun i _ => FindsSame.refl (d.getChild i) q)

/-- A write to `p` changes neither the node nor the value that a read of another path finds. By
induction on `p`, for every other path. -/
theorem findsSame_writeSegs (d : LZData) (p : List Text) (v : Text) (q : List Text)
    (hne : q ≠ p) : FindsSame d (d.writeSegs p v).1 q := by
  fun_induction writeSegs d p v generalizing q with
  | case1 => exact FindsSame.refl _ _
  | case2 d s v k hf =>
    refine findsSame_setChild hf (getChild_tag hf) ?_
    intro q' hq'
    exact findsSame_setString _ v (by rintro rfl; exact hne hq')
  | case3 => exact findsSame_addChild _ _ _
  | case4 d s s' rest v d' i henter child ptr hw ih =>
    obtain ⟨hfind, -, -⟩ := enter_spec d s
    -- entering adds a child at most
    have hkeep : FindsSame d d' q := by
      unfold enter at henter
      split at henter
      · cases henter
        exact FindsSame.refl _ _
      · cases henter
        exact findsSame_addChild _ _ _
    have htag := (writeSegs_tag_value (d'.getChild i) (s' :: rest) v).1
    rw [henter] at hfind
    rw [hw] at ih htag
    refine hkeep.trans (findsSame_setChild hfind (htag.trans (getChild_tag hfind)) ?_)
    intro q' hq'
    exact ih q' (by rintro rfl; exact hne hq')

/-! ### Sequences of writes -/

/-- The value that reading a path yields. `none` when no node is found. -/
def readValue (d : LZData) (tag : Text) : Option Text :=
  (d.read tag).bind fun ptr => (d.nodeAt ptr).map (·.value)

/-- The tree after a sequence of `writeString` calls. -/
def writes (d : LZData) (ops : List (Text × Text)) : LZData :=
  ops.foldl (fun d op => d.writeString op.1 op.2) d

/-- The value of the last write to a path. -/
def lastWrite (ops : List (Text × Text)) (tag : Text) : Option Text :=
  (ops.reverse.find? (fun op => op.1 == tag)).map (·.2)

/-- Two different paths have different segments. -/
theorem segments_inj {p q : Text} (h : segments p = segments q) : p = q := by
  have := congrArg (List.intercalate ['/']) h
  simpa [segments] using this

/-- A write that hits no first child is read back. -/
theorem readValue_write_self (d : LZData) (p v : Text) (h : ¬d.HitsFirstChild (segments p)) :
    (d.writeString p v).readValue p = some v := by
  have hread := (readSegs_writeSegs_iff d (segments p) v).mpr h
  have hvalue := nodeAt_writeSegs d (segments p) v (segments_ne_nil p)
  rw [readValue, writeString, read_eq, write_eq, hread]
  exact hvalue

/-- A write to another path keeps a value that a read finds. -/
theorem readValue_write_of_ne (d : LZData) (p v : Text) {q w : Text} (hne : q ≠ p)
    (h : d.readValue q = some w) : (d.writeString p v).readValue q = some w := by
  rw [readValue, read_eq, Option.bind_eq_some_iff] at h
  obtain ⟨ptr, hread, hvalue⟩ := h
  have hsegs : segments q ≠ segments p := fun e => hne (segments_inj e)
  obtain ⟨hread', hvalue'⟩ := findsSame_writeSegs d (segments p) v (segments q) hsegs ptr hread
  rw [readValue, writeString, read_eq, write_eq, hread', Option.bind_some, hvalue', hvalue]

/-- After a sequence of writes none of which hits a first child, a written path reads as its last
write. By induction on the writes from the last one. -/
theorem readValue_writes (d : LZData) (ops : List (Text × Text))
    (hok : ∀ before op after, ops = before ++ op :: after →
      ¬(d.writes before).HitsFirstChild (segments op.1))
    {p v : Text} (hlast : lastWrite ops p = some v) : (d.writes ops).readValue p = some v := by
  induction ops using List.reverseRecOn with
  | nil => simp [lastWrite] at hlast
  | append_singleton ops op ih =>
    have hstep : d.writes (ops ++ [op]) = (d.writes ops).writeString op.1 op.2 := by
      simp [writes]
    rw [hstep]
    -- the last write is to the path itself, or it leaves the path alone
    by_cases hp : op.1 = p
    · subst hp
      have hv : op.2 = v := by simpa [lastWrite] using hlast
      subst hv
      exact readValue_write_self _ _ _ (hok ops op [] rfl)
    · have hbefore : lastWrite ops p = some v := by
        simpa [lastWrite, List.find?_cons, hp] using hlast
      refine readValue_write_of_ne _ _ _ (Ne.symm hp) (ih ?_ hbefore)
      intro before op' after h
      exact hok before op' (after ++ [op]) (by simp [h])

/-- The tree is a last-writer-wins map exactly as far as no write hits a first child:

1. `read(p)` after `write(p, v)` returns the node that `write` returned, with the value `v`,
   exactly when the last segment of `p` does not name the first child of its parent;
2. after a sequence of such writes, every written path reads as its last write. -/
theorem lastWriterWins_iff (d : LZData) :
    (∀ p v : Text,
      ((d.write p v).1.read p = some (d.write p v).2 ∧
          ((d.write p v).1.nodeAt (d.write p v).2).map (·.value) = some v) ↔
        ¬d.HitsFirstChild (segments p)) ∧
    ∀ ops : List (Text × Text),
      (∀ before op after, ops = before ++ op :: after →
        ¬(d.writes before).HitsFirstChild (segments op.1)) →
      ∀ p v, lastWrite ops p = some v → (d.writes ops).readValue p = some v := by
  refine ⟨?_, fun ops hok p v hlast => readValue_writes d ops hok hlast⟩
  intro p v
  rw [read_eq, write_eq, ← readSegs_writeSegs_iff d (segments p) v]
  exact and_iff_left (nodeAt_writeSegs d (segments p) v (segments_ne_nil p))

/-- Two writes to a second child: the later one wins. The first child keeps its place in front of
it. -/
theorem lastWriterWins_second_child :
    (writes ⟨"root".toList, [], [⟨"a".toList, [], []⟩]⟩
      [("b".toList, "1".toList), ("b".toList, "2".toList)]).readValue "b".toList
        = some "2".toList := by
  refine (lastWriterWins_iff _).2 _ ?_ _ _ (by decide)
  -- the path must not lead to a first child before either write
  intro before op after h
  match before with
  | [] =>
    simp only [List.nil_append, List.cons.injEq] at h
    rw [← h.1, segments_of_none (by decide)]
    simp only [writes, List.foldl_nil, HitsFirstChild]
    decide
  | [first] =>
    simp only [List.cons_append, List.nil_append, List.cons.injEq] at h
    rw [← h.1, ← h.2.1, segments_of_none (by decide)]
    simp only [writes, List.foldl_cons, List.foldl_nil, writeString, write_eq,
      segments_of_none (show findFirstOf "b".toList '/' = none by decide), HitsFirstChild]
    decide
  | first :: second :: before =>
    simp at h

/-- A second write to a first child is not read back: `read` returns the old node, with the old
value. The search finds the index 0, and `write` takes only an index above 0 for a child that is
there. -/
theorem write_first_child_not_read :
    ¬(let d : LZData := ⟨"root".toList, [], [⟨"a".toList, "1".toList, []⟩]⟩
      (d.write "a".toList "2".toList).1.read "a".toList
          = some (d.write "a".toList "2".toList).2 ∧
        ((d.write "a".toList "2".toList).1.readValue "a".toList) = some "2".toList) := by
  simp only [readValue, read_eq, write_eq,
    segments_of_none (show findFirstOf "a".toList '/' = none by decide)]
  decide

end OnlineJudger.LZData
