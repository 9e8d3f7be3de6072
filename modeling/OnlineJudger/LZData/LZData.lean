import OnlineJudger.Lib.Trim

/-!
# `OnlineJudger.LZData.LZData`: the configuration tree

The model of `LZData/LZData.h` and `LZData/LZData.cpp`: a tree of tagged values, read and
written by slash-separated paths.

A C++ `char` is a `Char` here, and a `std::string` is a `Text`. The code compares characters
with ASCII constants only, so every byte string is a `Text`.

A `LZDataPtr` names an object by identity. In a tree each object has one place, so the model
names it by its child positions, from the node on which the call is made. Two pointers are
equal exactly when they name the same object.
-/

set_option autoImplicit false

namespace OnlineJudger

/-- A `std::string`. -/
abbrev Text := List Char

/-- `isWhiteSpace` of `lzdParser.cpp`. The parser of the lzd format does not treat a carriage return
as white space, and this function does. -/
def isWhiteSpace (ch : Char) : Bool := ch == ' ' || ch == '\t' || ch == '\n' || ch == '\r'

/-- `ltrimString`: erase up to the first character that is no white space, or clear. The clear is
for a text of white space only, where the search finds nothing. -/
def ltrimString (str : Text) : Text := str.dropWhile isWhiteSpace

/-- `rtrimString`: erase behind the last character that is no white space, or clear. -/
def rtrimString (str : Text) : Text := str.rdropWhile isWhiteSpace

/-- `trimString`: both ends. -/
def trimString (str : Text) : Text := rtrimString (ltrimString str)

/-- `printTable`: `n` tabulators, the indentation of both formats. -/
def printTable (n : Nat) : Text := List.replicate n '\t'

/-- `std::string::find_first_of` with one character. `none` is `npos`. -/
def findFirstOf (str : Text) (ch : Char) : Option Nat := str.findIdx? (· == ch)

/-- The character behind a text without it is found. -/
theorem findFirstOf_append_cons {w : Text} {ch : Char} (h : ch ∉ w) (rest : Text) :
    findFirstOf (w ++ ch :: rest) ch = some w.length := by
  unfold findFirstOf
  induction w with
  | nil => rw [List.nil_append, List.findIdx?_cons, beq_self_eq_true, if_pos rfl, List.length_nil]
  | cons c w ih =>
    rw [List.mem_cons, not_or] at h
    obtain ⟨hc, hw⟩ := h
    rw [List.cons_append, List.findIdx?_cons, beq_eq_false_iff_ne.mpr (Ne.symm hc), ih hw]
    rfl

/-- It is not found in a text without it, and that is the only case in which it is not found. -/
theorem findFirstOf_eq_none {str : Text} {ch : Char} : findFirstOf str ch = none ↔ ch ∉ str := by
  unfold findFirstOf
  rw [List.findIdx?_eq_none_iff]
  constructor
  · intro h hmem
    have hne := h ch hmem
    rw [beq_self_eq_true] at hne
    exact Bool.noConfusion hne
  · intro h c hc
    refine beq_eq_false_iff_ne.mpr ?_
    rintro rfl
    exact h hc

/-- What is found stands in the text. -/
theorem findFirstOf_lt {str : Text} {ch : Char} {pos : Nat}
    (h : findFirstOf str ch = some pos) : pos < str.length :=
  (List.findIdx?_eq_some_iff_getElem.mp h).1

/-- A node of the tree. Its children are in the order in which they were added, and two of them may
have the same tag. -/
structure LZData where
  tag : Text
  value : Text := []
  children : List LZData := []
  deriving Repr

/-- A pointer to a node below: child positions, outermost first. -/
abbrev LZDataPtr := List Nat

namespace LZData

/-- `setString`: the value is replaced, and the children stay. -/
def setString (d : LZData) (data : Text) : LZData := { d with value := data }

/-- `countChildren`, an `int`. -/
def countChildren (d : LZData) : Int := d.children.length

/-- `addChild`. The index it returns is `countChildren d`. -/
def addChild (d : LZData) (ptr : LZData) : LZData := { d with children := d.children ++ [ptr] }

/-- The loop of `findNextChild` starts behind `index`. `-1` is "not found". -/
def findNextChild (d : LZData) (index : Int) (tag : Text) : Int :=
  let index := index + 1
  if index < 0 ∨ index ≥ d.countChildren then -1
  else
    match (d.children.drop index.toNat).findIdx? (fun c => c.tag == tag) with
    | some k => index + k
    | none => -1

/-- `findChild`: the search from the beginning. Of several children with the same tag it finds the
first. -/
def findChild (d : LZData) (name : Text) : Int := d.findNextChild (-1) name

/-- `getChild`. The callers pass an index that `findChild` or `addChild` returned. -/
def getChild (d : LZData) (index : Int) : LZData := d.children.getD index.toNat ⟨[], [], []⟩

/-- The object at `getChild index` was changed to `child`. -/
def setChild (d : LZData) (index : Int) (child : LZData) : LZData :=
  { d with children := d.children.set index.toNat child }

/-- `substr(pos + 1)` is shorter than the string `find_first_of` found `pos` in. -/
theorem length_substr_lt {tag : Text} {ch : Char} {pos : Nat}
    (h : findFirstOf tag ch = some pos) : (tag.drop (pos + 1)).length < tag.length := by
  obtain ⟨hpos, -, -⟩ := List.findIdx?_eq_some_iff_getElem.mp h
  rw [List.length_drop]
  omega

/-- `LZData::read`: the first child with the first segment of the path, and on from there. There is
no way back to a second child with the same tag. -/
def read (d : LZData) (tag : Text) : Option LZDataPtr :=
  match _hpos : findFirstOf tag '/' with
  | none =>
    let i := d.findChild tag
    if i < 0 then none else some [i.toNat]
  | some pos =>
    let i := d.findChild (tag.take pos)
    if i < 0 then none
    else ((d.getChild i).read (tag.drop (pos + 1))).map (i.toNat :: ·)
termination_by tag.length
decreasing_by exact length_substr_lt _hpos

/-- `LZData::write`: the changed tree and the node that the call returns. The last segment
overwrites a child only at an index greater than 0. -/
def write (d : LZData) (tag value : Text) : LZData × LZDataPtr :=
  match _hpos : findFirstOf tag '/' with
  | none =>
    let i := d.findChild tag
    -- index 0 is a child that was found, and it is not overwritten
    if i > 0 then (d.setChild i ((d.getChild i).setString value), [i.toNat])
    else (d.addChild ⟨tag, value, []⟩, [d.countChildren.toNat])
  | some pos =>
    let lName := tag.take pos
    let rName := tag.drop (pos + 1)
    let i := d.findChild lName
    -- on the way down index 0 counts as found
    let (d, i) := if i < 0 then (d.addChild ⟨lName, [], []⟩, d.countChildren) else (d, i)
    let (child, ptr) := (d.getChild i).write rName value
    (d.setChild i child, i.toNat :: ptr)
termination_by tag.length
decreasing_by exact length_substr_lt _hpos

/-- `LZData::writeString` drops the pointer that `write` returns. -/
def writeString (d : LZData) (tag data : Text) : LZData := (d.write tag data).1

/-- The object a pointer names. A pointer that leads out of the tree names none. The pointers of the
source are positions here, since the children of a node only grow. -/
def nodeAt : LZData → LZDataPtr → Option LZData
  | d, [] => some d
  | d, i :: ptr =>
    match d.children[i]? with
    | some c => c.nodeAt ptr
    | none => none

/-- The node that `read` returns. `read` returns a pointer to it, and the callers read through
that. -/
def readNode (d : LZData) (tag : Text) : Option LZData := (d.read tag).bind d.nodeAt

end LZData

end OnlineJudger
