import OnlineJudger.Judger.ConfigFile
import OnlineJudger.Judger.JudgeTask
import OnlineJudger.LZData.Load

/-!
# `OnlineJudger.LZData.Store`: typed values and the file of a tree

The rest of `LZData/LZData.cpp`: the typed reads and writes, and `save`. The numbers with a
fraction (`asFloat`, `setFloat` and the like) are left out.

`save` opens its stream in text mode, so each newline becomes two characters in the file.
`createFromFile` reads the file in binary mode.
-/

set_option autoImplicit false

namespace OnlineJudger

namespace LZData

/-! ### Typed values -/

/-- `asBool`: the two words, and any other text as a number. So a text that is no number reads as
false. -/
def asBool (d : LZData) : Bool :=
  if d.value = "true".toList then true
  else if d.value = "false".toList then false
  else d.asInt ≠ 0

/-- `setInt`: the number is stored as its text. -/
def setInt (d : LZData) (data : Int) : LZData := d.setString (formatInt data)

/-- `setBool`: one of the two words is stored. -/
def setBool (d : LZData) (data : Bool) : LZData :=
  d.setString (if data then "true".toList else "false".toList)

/-- `readBool`: the truth value at a path, or the default if there is no such node. -/
def readBool (d : LZData) (tag : Text) (default : Bool) : Bool :=
  match d.readNode tag with
  | none => default
  | some ptr => ptr.asBool

/-- The object that the pointer names was changed. Nothing changes if it names none. -/
def update : LZData → LZDataPtr → (LZData → LZData) → LZData
  | d, [], f => f d
  | d, i :: ptr, f =>
    match d.children[i]? with
    | some c => d.setChild i (c.update ptr f)
    | none => d

/-- `writeInt`: `write` without a value, and then `setInt` on the node that it returns. -/
def writeInt (d : LZData) (tag : Text) (data : Int) : LZData :=
  let (d, ptr) := d.write tag []
  d.update ptr fun node => node.setInt data

/-- `writeBool`, in the same way as `writeInt`. -/
def writeBool (d : LZData) (tag : Text) (data : Bool) : LZData :=
  let (d, ptr) := d.write tag []
  d.update ptr fun node => node.setBool data

end LZData

/-! ### The file -/

/-- `save` of an xml tree: the result and the files. `good` is the state of the opened stream, and
the stream is in text mode. Whether the writing succeeds is not looked at. -/
def Xml.save (good : Bool) (files : Text → Option Text) (fileName : Text) (d : LZData) :
    Bool × (Text → Option Text) :=
  if !good then (false, files)
  else
    let content := textMode (Xml.print 0 d)
    (true, fun name => if name = fileName then some content else files name)

/-- `save` of an lzd tree, in the same way with the other printer. -/
def Lzd.save (good : Bool) (files : Text → Option Text) (fileName : Text) (d : LZData) :
    Bool × (Text → Option Text) :=
  if !good then (false, files)
  else
    let content := textMode (Lzd.print 0 d)
    (true, fun name => if name = fileName then some content else files name)

end OnlineJudger
