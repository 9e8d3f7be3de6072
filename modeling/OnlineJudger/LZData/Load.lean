import OnlineJudger.LZData.Lzd
import OnlineJudger.LZData.Xml
import OnlineJudger.Acm.Utilities

/-!
# `OnlineJudger.LZData.Load`: loading a tree from memory and from a file

The model of `createLzdFromBuffer` and `readFileBuffer` of `LZData/LZData.cpp`, and of
`createFromBuffer` and `createFromFile` of `LZData/lzd.cpp` and `LZData/xml.cpp`.

A `const char*` is the list of the characters that can be read from its address on. The buffer
is the front of `length` characters, and what follows is other memory of the process.
-/

set_option autoImplicit false

namespace OnlineJudger

/-- `LzDataType`: the two formats in which a tree is stored. -/
inductive LzDataType where
  | LZD_LZD
  | LZD_XML
  deriving DecidableEq, Repr

/-- How a load fails with undefined behaviour or an exception. A file that cannot be opened is no
fault: the load returns `NULL` then. -/
inductive LoadFault where
  | parse (f : ParseFault)
  /-- A character behind the readable memory is asked for. -/
  | overrun
  /-- `&buffer[0]` of an empty vector. Nothing says what that is, and a checked library ends the
  process there. -/
  | emptyBuffer
  deriving DecidableEq, Repr

/-- The tag of the root that `createFromBuffer` makes. -/
def Lzd.rootTag : Text := "root".toList

/-- `lzd::createFromBuffer`. The parser takes a `std::string`, and the constructor from a
`const char*` looks for the NUL. `length` is not used. -/
def Lzd.createFromBuffer (buffer : Text) (_length : Nat) : Option (Except LoadFault LZData) :=
  if '\x00' ∈ buffer then
    let parser : CParser := { strText := cString buffer, curNode := ⟨Lzd.rootTag, [], []⟩ }
    parser.parse.map fun parser => .ok parser.curNode
  else some (.error .overrun)

/-- `xml::createFromBuffer`. `Xml.createFromBuffer` is the case in which the buffer is all of the
memory. -/
def Xml.createFromMemory (buffer : Text) (length : Nat) : Option (Except LoadFault LZData) :=
  if buffer.length < length then some (.error .overrun)
  else
    match XmlParser.parse { buffer := fun i => buffer.getD i '\x00', size := length } none with
    | none => none
    | some (.fault f) => some (.error (.parse f))
    | some (.returned _ root _) => some (.ok root)

/-- `readFileBuffer`. `files` is the content of a file, if it can be opened. The result `none` is
`false`. `fread_s` gets the address of the first character, which an empty file does not have. -/
def readFileBuffer (files : Text → Option Text) (fname : Text) : Except LoadFault (Option Text) :=
  match files fname with
  | none => .ok none
  | some buffer => if buffer.length = 0 then .error .emptyBuffer else .ok (some buffer)

/-- `xml::createFromFile`. The inner `none` is `NULL`. The tree is returned whether the parser has
succeeded or not. -/
def Xml.createFromFile (files : Text → Option Text) (fname : Text) :
    Option (Except LoadFault (Option LZData)) :=
  match readFileBuffer files fname with
  | .error f => some (.error f)
  | .ok none => some (.ok none)
  | .ok (some buffer) =>
    (Xml.createFromBuffer buffer).map fun result => (result.mapError .parse).map some

/-- `lzd::createFromFile`. `after` is the memory behind the buffer, which the parser may read into.
The inner `none` is `NULL`. -/
def Lzd.createFromFile (files : Text → Option Text) (after : Text) (fname : Text) :
    Option (Except LoadFault (Option LZData)) :=
  match readFileBuffer files fname with
  | .error f => some (.error f)
  | .ok none => some (.ok none)
  | .ok (some buffer) =>
    (Lzd.createFromBuffer (buffer ++ after) buffer.length).map fun result => result.map some

/-- `createLzdFromBuffer`. There is no third type, so it never returns `NULL`. -/
def createLzdFromBuffer (type : LzDataType) (buffer : Text) (length : Nat) :
    Option (Except LoadFault LZData) :=
  match type with
  | .LZD_LZD => Lzd.createFromBuffer buffer length
  | .LZD_XML => Xml.createFromMemory buffer length

end OnlineJudger
