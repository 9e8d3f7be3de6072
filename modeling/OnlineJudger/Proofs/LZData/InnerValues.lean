import OnlineJudger.Proofs.LZData.Load
import OnlineJudger.Proofs.LZData.LzdRoundTrip
import OnlineJudger.Proofs.LZData.ReadWrite
import OnlineJudger.Proofs.LZData.XmlRoundTrip

/-!
# `OnlineJudger.Proofs.LZData.InnerValues`: the values of the inner nodes

The parsers and `write` put a value on a node that has children. The printers print the value of
a node or its children. `strip` is the tree without the values that are not printed.

* `printed_strip`: a tree is printed as the stripped tree is.
* `inner_value_saved_iff`: if the stripped tree can be printed and read back, a path finds the
  value again exactly if it is no value of an inner node. Of two trees that differ in such a
  value, at most one is saved, whatever else is in them.
-/

set_option autoImplicit false

namespace OnlineJudger

open Lib

namespace LZData

/-! ### The tree without the values of its inner nodes -/

mutual

/-- The tree without the values of its inner nodes. -/
def strip : LZData → LZData
  | ⟨tag, value, children⟩ =>
    ⟨tag, if children.isEmpty then value else [], stripChildren children⟩

/-- The same for the children. -/
def stripChildren : List LZData → List LZData
  | [] => []
  | d :: ds => strip d :: stripChildren ds

end

/-- The children are stripped one by one. -/
theorem stripChildren_eq_map (ds : List LZData) : stripChildren ds = ds.map strip := by
  induction ds with
  | nil => rfl
  | cons d ds ih => rw [stripChildren, ih, List.map_cons]

/-- The tags stay. -/
@[simp] theorem strip_tag (d : LZData) : d.strip.tag = d.tag := by
  cases d
  rw [strip]

/-- The children of the stripped tree are the stripped children. -/
@[simp] theorem strip_children (d : LZData) : d.strip.children = d.children.map strip := by
  cases d
  rw [strip, stripChildren_eq_map]

/-- A leaf keeps its value. -/
theorem strip_value_of_leaf {d : LZData} (h : d.children = []) : d.strip.value = d.value := by
  obtain ⟨tag, value, children⟩ := d
  simp only at h
  rw [strip, h]
  rfl

/-- An inner node has none any more. -/
theorem strip_value_of_inner {d : LZData} (h : d.children ≠ []) : d.strip.value = [] := by
  obtain ⟨tag, value, children⟩ := d
  rw [strip]
  exact if_neg fun hempty => h (List.isEmpty_iff.mp hempty)

/-! ### Reading in the stripped tree -/

/-- A child is found by its tag, so it is found at the same place. -/
@[simp] theorem findTag_strip (d : LZData) (s : Text) : d.strip.findTag s = d.findTag s := by
  rw [findTag, findTag, strip_children, List.findIdx?_map]
  refine congrArg (List.findIdx? · d.children) ?_
  funext c
  rw [Function.comp_apply, strip_tag]

/-- The child that is found is the stripped one. -/
theorem getChild_strip {d : LZData} {s : Text} {i : Nat} (h : d.findTag s = some i) :
    d.strip.getChild i = (d.getChild i).strip := by
  have hchild := getChild_of_findTag h
  have hchild' := getChild_of_findTag ((findTag_strip d s).trans h)
  rw [strip_children, List.getElem?_map, hchild, Option.map_some] at hchild'
  exact (Option.some.inj hchild').symm

/-- A path goes down by tags, and leads to the same node. By induction on the segments. -/
theorem readSegs_strip (d : LZData) (q : List Text) : d.strip.readSegs q = d.readSegs q := by
  induction q generalizing d with
  | nil => rfl
  | cons s q ih =>
    rw [readSegs, readSegs, findTag_strip]
    cases hf : d.findTag s with
    | none => rfl
    | some i => simp only [getChild_strip hf, ih]

/-- The same for a path before it is split. -/
@[simp] theorem read_strip (d : LZData) (path : Text) : d.strip.read path = d.read path := by
  rw [read_eq, read_eq, readSegs_strip]

/-- The node at a pointer is the stripped one. -/
@[simp] theorem nodeAt_strip (d : LZData) (ptr : LZDataPtr) :
    d.strip.nodeAt ptr = (d.nodeAt ptr).map strip := by
  induction ptr generalizing d with
  | nil => rfl
  | cons i ptr ih =>
    rw [nodeAt, nodeAt, strip_children, List.getElem?_map]
    cases d.children[i]? with
    | none => rfl
    | some c => exact ih c

end LZData

/-! ### Printing -/

/-- The printers ask for the number of the children, which is the same. -/
theorem countChildren_strip (d : LZData) : d.strip.countChildren = d.countChildren := by
  rw [LZData.countChildren, LZData.countChildren, LZData.strip_children, List.length_map]

/-- The values that are printed: those of the nodes for which the printers find no children. -/
theorem strip_value_of_not_countChildren {d : LZData} (h : ¬ d.countChildren > 0) :
    d.strip.value = d.value := by
  refine LZData.strip_value_of_leaf (List.eq_nil_of_length_eq_zero ?_)
  rw [LZData.countChildren] at h
  omega

mutual

/-- The xml printer, by induction on the tree together with its list of children. -/
theorem Xml.print_strip (depth : Nat) : ∀ d : LZData, Xml.print depth d.strip = Xml.print depth d
  | ⟨tag, value, children⟩ => by
    rw [LZData.strip, Xml.print, Xml.print]
    exact Xml.printChildren_strip depth children

/-- The children, one behind the other. A value is printed only where the stripped tree has it
too. -/
theorem Xml.printChildren_strip (depth : Nat) : ∀ ds : List LZData,
    Xml.printChildren depth (LZData.stripChildren ds) = Xml.printChildren depth ds
  | [] => rfl
  | d :: ds => by
    rw [LZData.stripChildren, Xml.printChildren, Xml.printChildren, countChildren_strip,
      LZData.strip_tag, Xml.print_strip (depth + 1) d, Xml.printChildren_strip depth ds]
    split_ifs with h
    · rfl
    · rw [strip_value_of_not_countChildren h]

end

mutual

/-- The lzd printer, by the same induction. -/
theorem Lzd.print_strip (depth : Nat) : ∀ d : LZData, Lzd.print depth d.strip = Lzd.print depth d
  | ⟨tag, value, children⟩ => by
    rw [LZData.strip, Lzd.print, Lzd.print]
    exact Lzd.printChildren_strip depth children

/-- The children, one behind the other. -/
theorem Lzd.printChildren_strip (depth : Nat) : ∀ ds : List LZData,
    Lzd.printChildren depth (LZData.stripChildren ds) = Lzd.printChildren depth ds
  | [] => rfl
  | d :: ds => by
    rw [LZData.stripChildren, Lzd.printChildren, Lzd.printChildren, countChildren_strip,
      LZData.strip_tag, Lzd.print_strip (depth + 1) d, Lzd.printChildren_strip depth ds]
    split_ifs with h
    · rfl
    · rw [strip_value_of_not_countChildren h]

end

/-- What `save` writes, in either format. -/
def printed (type : LzDataType) (d : LZData) : Text :=
  match type with
  | .LZD_LZD => Lzd.print 0 d
  | .LZD_XML => Xml.print 0 d

/-- A tree is printed as the stripped tree is. -/
theorem printed_strip (type : LzDataType) (d : LZData) : printed type d.strip = printed type d := by
  cases type with
  | LZD_LZD => exact Lzd.print_strip 0 d
  | LZD_XML => exact Xml.print_strip 0 d

/-! ### Printing and reading back -/

/-- The trees that the format carries: what is below the root can be printed and read back. -/
def Carried (type : LzDataType) (d : LZData) : Prop :=
  match type with
  | .LZD_LZD => (d.children.map LZData.tag).Nodup ∧ ∀ c ∈ d.children, Lzd.Printable c
  | .LZD_XML => ∀ c ∈ d.children, Xml.Printable c

/-- A carried tree comes back with the same children: the round trip of each format. -/
theorem load_printed {type : LzDataType} {d : LZData} (h : Carried type d) :
    ∃ root, load type (printed type d) = some (.ok root) ∧ root.children = d.children := by
  cases type with
  | LZD_LZD =>
    have hfresh : (⟨Lzd.rootTag, [], []⟩ : LZData).children = [] := rfl
    obtain ⟨p, hp, hnode⟩ := CParser.exists_parse_print h.1 h.2 hfresh
    exact ⟨p.curNode, by rw [load, printed, hp]; rfl, by rw [hnode]⟩
  | LZD_XML =>
    obtain ⟨root, rest, hreads, hchildren⟩ :=
      XmlParser.reads_print h ⟨XmlParser.rootTag, [], []⟩ rfl
    obtain ⟨s, hparse, -⟩ := XmlParser.parse_eq_returned (.ofText (Xml.print 0 d)) none
      (by rw [WrapperStream.rest_ofText]; exact hreads)
    exact ⟨root, by rw [load, printed, Xml.createFromBuffer, hparse]; rfl, hchildren⟩

/-- A path of at least one segment leads below the node. -/
theorem LZData.readSegs_cons_eq_some {d : LZData} {s : Text} {q : List Text} {ptr : LZDataPtr}
    (h : d.readSegs (s :: q) = some ptr) : ∃ i ptr', ptr = i :: ptr' := by
  rw [readSegs] at h
  cases hf : d.findTag s with
  | none =>
    rw [hf] at h
    simp only [reduceCtorEq] at h
  | some i =>
    rw [hf] at h
    obtain ⟨ptr', -, rfl⟩ := Option.map_eq_some_iff.mp h
    exact ⟨i, ptr', rfl⟩

/-- Reading below the root depends on its children. The empty path finds nothing. -/
theorem LZData.readNode_congr {d d' : LZData} (h : d.children = d'.children) (path : Text) :
    d.readNode path = d'.readNode path := by
  obtain ⟨tag, value, children⟩ := d
  obtain ⟨tag', value', children'⟩ := d'
  simp only at h
  subst h
  -- a path has a first name, and from there on only the children are read
  obtain ⟨s, rest, hsegments⟩ := List.exists_cons_of_ne_nil (segments_ne_nil path)
  have hread : readSegs ⟨tag, value, children⟩ (s :: rest) =
      readSegs ⟨tag', value', children⟩ (s :: rest) := rfl
  rw [readNode, readNode, read_eq, read_eq, hsegments, ← hread]
  cases hptr : readSegs ⟨tag, value, children⟩ (s :: rest) with
  | none => rfl
  | some ptr =>
    obtain ⟨i, ptr', rfl⟩ := readSegs_cons_eq_some hptr
    rfl

/-- A path finds the stripped node. -/
theorem LZData.readNode_strip (d : LZData) (path : Text) :
    d.strip.readNode path = (d.readNode path).map strip := by
  rw [readNode, readNode, read_strip, Option.map_bind]
  refine congrArg _ ?_
  funext ptr
  exact nodeAt_strip d ptr

/-- Printing the tree and parsing the text keeps the value that the path finds. -/
def Keeps (type : LzDataType) (d : LZData) (path : Text) : Prop :=
  ∃ root, load type (printed type d) = some (.ok root) ∧
    (root.readNode path).map LZData.value = (d.readNode path).map LZData.value

/-- The path finds a node with a child and a non-empty value. -/
def FindsInnerValue (d : LZData) (path : Text) : Prop :=
  ∃ node, d.readNode path = some node ∧ node.children ≠ [] ∧ node.value ≠ []

/-- The values of a stripped tree: a node keeps its own unless it is inner and has one. -/
theorem strip_value_iff (node : LZData) :
    node.strip.value = node.value ↔ ¬ (node.children ≠ [] ∧ node.value ≠ []) := by
  by_cases hleaf : node.children = []
  · rw [LZData.strip_value_of_leaf hleaf]
    exact iff_of_true rfl fun h => h.1 hleaf
  · rw [LZData.strip_value_of_inner hleaf, not_and, not_not, eq_comm]
    exact ⟨fun h _ => h, fun h => h hleaf⟩

/-- In a carried tree exactly the values of the inner nodes get lost. What comes back is the
stripped tree, so a value is kept if stripping keeps it. -/
theorem keeps_iff {type : LzDataType} {d : LZData} (h : Carried type d.strip) (path : Text) :
    Keeps type d path ↔ ¬ FindsInnerValue d path := by
  obtain ⟨root, hroot, hchildren⟩ := load_printed h
  rw [printed_strip] at hroot
  -- what is read of the loaded tree is the node with its inner values left out
  have hread : root.readNode path = (d.readNode path).map LZData.strip := by
    rw [LZData.readNode_congr hchildren, LZData.readNode_strip]
  have hkeeps : Keeps type d path ↔
      (root.readNode path).map LZData.value = (d.readNode path).map LZData.value := by
    constructor
    · rintro ⟨root', hroot', hvalue⟩
      rw [hroot, Option.some.injEq, Except.ok.injEq] at hroot'
      rwa [hroot']
    · exact fun hvalue => ⟨root, hroot, hvalue⟩
  rw [hkeeps, hread, FindsInnerValue]
  cases d.readNode path with
  -- no node in either tree
  | none => simp only [Option.map_none, reduceCtorEq, false_and, exists_false, not_false_eq_true]
  -- a node keeps its value unless it is an inner one with a value
  | some node =>
    rw [Option.map_some, Option.map_some, Option.map_some, Option.some.injEq, strip_value_iff]
    simp only [Option.some.injEq, exists_eq_left']

/-- Trees that differ in the values of inner nodes are not told apart: they have the same text, and
the path finds one value in what is loaded from it. -/
theorem not_keeps_both {type : LzDataType} {d d' : LZData} (h : d'.strip = d.strip) {path : Text}
    (hne : (d'.readNode path).map LZData.value ≠ (d.readNode path).map LZData.value) :
    ¬ (Keeps type d path ∧ Keeps type d' path) := by
  rintro ⟨⟨root, hroot, hvalue⟩, root', hroot', hvalue'⟩
  rw [← printed_strip, h, printed_strip, hroot, Option.some.injEq, Except.ok.injEq] at hroot'
  rw [← hroot', hvalue] at hvalue'
  exact hne hvalue'.symm

/-- A path keeps its value exactly if it finds no value of an inner node, in every tree that the
format carries without these values. In any tree, it keeps at most one value of an inner node, since
the text of an inner node is printed from its children alone. -/
theorem inner_value_saved_iff (type : LzDataType) (d : LZData) (path : Text) :
    (Carried type d.strip → (Keeps type d path ↔ ¬ FindsInnerValue d path)) ∧
      ∀ d' : LZData, d'.strip = d.strip →
        (d'.readNode path).map LZData.value ≠ (d.readNode path).map LZData.value →
          ¬ (Keeps type d path ∧ Keeps type d' path) :=
  ⟨fun h => keeps_iff h path, fun _ h hne => not_keeps_both h hne⟩

/-- What the xml parser makes of mixed content: `a` has a value and a child. -/
def mixed : LZData :=
  ⟨"root".toList, [], [⟨"a".toList, "1".toList, [⟨"b".toList, "2".toList, []⟩]⟩]⟩

example : ∃ s, XmlParser.parse (.ofText "<a>1<b>2</b></a>".toList) none =
    some (.returned true mixed s) := ⟨_, rfl⟩

/-- Without the value of `a`, both formats carry it. So the condition of the round trip can be met,
and it is the inner value that was in the way. -/
theorem carried_mixed (type : LzDataType) : Carried type mixed.strip := by
  have hvalue : Trimmed isWhiteSpace "2".toList := by decide
  cases type with
  | LZD_LZD =>
    have htag (ch : Char) (hch : Lzd.isTagChar ch = true) : Lzd.TagOk [ch] :=
      ⟨List.cons_ne_nil _ _, List.forall_mem_singleton.mpr hch⟩
    refine ⟨by decide, ?_⟩
    intro c hc
    rw [List.mem_singleton.mp hc]
    refine .inner (htag 'a' (by decide)) (by decide) (by decide) ?_
    intro c hc
    rw [List.mem_singleton.mp hc]
    exact .leaf (htag 'b' (by decide)) ⟨by decide, by decide, hvalue⟩
  | LZD_XML =>
    intro c hc
    rw [List.mem_singleton.mp hc]
    refine .inner (by constructor <;> decide) (by decide) ?_
    intro c hc
    rw [List.mem_singleton.mp hc]
    exact .leaf (by constructor <;> decide) ⟨by decide, hvalue⟩

/-- The two nodes that the paths find. -/
theorem readNode_mixed : mixed.readNode "a".toList = some ⟨"a".toList, "1".toList,
      [⟨"b".toList, "2".toList, []⟩]⟩ ∧
    mixed.readNode "a/b".toList = some ⟨"b".toList, "2".toList, []⟩ := by
  have hsegments : LZData.segments "a".toList = ["a".toList] := by decide
  have hsegments' : LZData.segments "a/b".toList = ["a".toList, "b".toList] := by decide
  rw [LZData.readNode, LZData.readNode, LZData.read_eq, LZData.read_eq, hsegments, hsegments']
  exact ⟨rfl, rfl⟩

/-- The value of `a` is one of an inner node. -/
theorem findsInnerValue_mixed : FindsInnerValue mixed "a".toList :=
  ⟨_, readNode_mixed.1, List.cons_ne_nil _ _, by decide⟩

/-- The value of the leaf `b` is kept, and that of the inner node `a` above it is not. -/
theorem inner_value_saved_mixed :
    Keeps .LZD_XML mixed "a/b".toList ∧ ¬ Keeps .LZD_XML mixed "a".toList := by
  refine ⟨((inner_value_saved_iff _ _ _).1 (carried_mixed _)).mpr ?_, ?_⟩
  · rintro ⟨node, hnode, hchildren, -⟩
    rw [readNode_mixed.2, Option.some.injEq] at hnode
    subst hnode
    exact hchildren rfl
  · intro h
    exact ((inner_value_saved_iff _ _ _).1 (carried_mixed _)).mp h findsInnerValue_mixed

/-- The format can carry this value, at a leaf. -/
def ValueOk (type : LzDataType) (value : Text) : Prop :=
  match type with
  | .LZD_LZD => Lzd.ValueOk value
  | .LZD_XML => Xml.ValueOk value

/-- The value of an inner node is lost in both formats, though a leaf can have it. -/
theorem inner_value_lost :
    ¬ (∃ type, ∀ (d : LZData) (path : Text) (node : LZData), d.readNode path = some node →
      node.children ≠ [] → node.value ≠ [] → ValueOk type node.value → Keeps type d path) := by
  rintro ⟨type, h⟩
  have htrimmed : Trimmed isWhiteSpace "1".toList := by decide
  have hvalue : ValueOk type "1".toList := by
    cases type with
    | LZD_LZD => exact ⟨by decide, by decide, htrimmed⟩
    | LZD_XML => exact ⟨by decide, htrimmed⟩
  have hkeeps := h mixed "a".toList _ readNode_mixed.1 (List.cons_ne_nil _ _) (by decide) hvalue
  exact (keeps_iff (carried_mixed type) _).mp hkeeps findsInnerValue_mixed

end OnlineJudger
