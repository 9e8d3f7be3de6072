import OnlineJudger.LZData.LZData

/-!
# `OnlineJudger.LZData.Xml`: the xml printer and parser

The model of `LZData/xml.cpp`, `LZData/xmlParser.h` and `LZData/xmlParser.cpp`. `endl` is one
newline. The `printf` lines of the parser are not modelled.

`parseReal` is a loop with a recursive call, so it runs on fuel here. `parse` gives it one
unit for each character and one more, and `Proofs/LZData/XmlRest` shows that this suffices.
-/

set_option autoImplicit false

namespace OnlineJudger

namespace Xml

mutual

/-- `xml::print`. The tag and the value of the node itself are not printed: the parser makes a root
of its own. -/
def print (depth : Nat) : LZData → Text
  | ⟨_, _, children⟩ => printChildren depth children

/-- The loop of `xml::print`. A node with children is printed without its value, and nothing in a
tag or a value is escaped. -/
def printChildren (depth : Nat) : List LZData → Text
  | [] => []
  | ptr :: children =>
    (if ptr.countChildren > 0 then
      printTable depth ++ "<".toList ++ ptr.tag ++ ">\n".toList ++
        (print (depth + 1) ptr ++ (printTable depth ++ "</".toList ++ ptr.tag ++ ">\n".toList))
    else
      printTable depth ++ "<".toList ++ ptr.tag ++ ">\t".toList ++ ptr.value ++
        "\t</".toList ++ ptr.tag ++ ">\n".toList) ++ printChildren depth children

end

end Xml

/-- What the parser runs into where the standard library does not go on. -/
inductive ParseFault where
  /-- `std::string::assign` with a negative length. -/
  | lengthError
  deriving DecidableEq, Repr

/-- `m_buffer` points into the memory of the process. The parser may use `m_size` bytes of it, and
what stands behind them is not its own. -/
structure WrapperStream where
  buffer : Nat → Char
  size : Nat
  index : Nat := 0

namespace WrapperStream

/-- A stream over the characters of `text`, with zeros behind them. Most results are about such a
stream. -/
def ofText (text : Text) : WrapperStream where
  buffer i := text.getD i '\x00'
  size := text.length

/-- `empty`: the index has come to the size. -/
def empty (s : WrapperStream) : Bool := s.index ≥ s.size

/-- `seek`. The index is not tested. -/
def seek (s : WrapperStream) (index : Nat) : WrapperStream := { s with index := index }

/-- `find`: the next place of a character from the index on. `none` is `-1`. -/
def find (s : WrapperStream) (ch : Char) : Option Nat :=
  (List.range' s.index (s.size - s.index)).find? (fun i => s.buffer i == ch)

/-- `getRange`: the result and the new content of `out`. An end behind the buffer is refused, while
an end in front of the beginning makes `assign` fail. -/
def getRange (s : WrapperStream) (out : Text) (begin' end' : Nat) :
    Except ParseFault (Bool × Text) :=
  if end' > s.size then .ok (false, out)
  else if end' < begin' then .error .lengthError
  else .ok (true, (List.range' begin' (end' - begin')).map s.buffer)

end WrapperStream

namespace XmlParser

/-- What `parseReal` makes of a trimmed tag: the end of an element, an element without contents, or
the beginning of one. -/
inductive TagKind where
  | closing (tag : Text)
  | attr (tag : Text)
  | opening (tag : Text)
  deriving DecidableEq, Repr

/-- `tag[0]` of a `std::string`. The standard of 2003 leaves the read of an empty one undefined.
The libraries give the NUL behind the text, and the parser goes on with it. -/
def firstChar (tag : Text) : Char := tag.headD '\x00'

/-- The tests of `parseReal` on a trimmed tag. A blank tag passes as the name of an element, and
what stands behind a blank in an attribute tag is dropped. -/
def tagKind (tag : Text) : TagKind :=
  if firstChar tag = '/' then .closing (rtrimString (tag.drop 1))
  else
    let lastIndex := tag.length - 1
    if lastIndex > 0 ∧ tag.getLast? = some '/' then
      match findFirstOf tag ' ' with
      | none => .attr (tag.take lastIndex)
      | some pos => .attr (tag.take pos)
    else .opening tag

/-- A blank tag opens an element without a name. -/
@[simp] theorem tagKind_nil : tagKind [] = .opening [] := rfl

/-- A closing tag starts with the slash. The NUL of an empty one is none. -/
theorem firstChar_eq_slash {tag : Text} : firstChar tag = '/' ↔ tag.head? = some '/' := by
  cases tag with
  | nil => decide
  | cons ch tag => simp only [firstChar, List.headD_cons, List.head?_cons, Option.some.injEq]

/-- An element is opened by its name. -/
theorem tagKind_eq_opening {tag a : Text} (h : tagKind tag = .opening a) : a = tag := by
  unfold tagKind at h
  dsimp only at h
  split at h
  · cases h
  · split at h
    · split at h <;> cases h
    · exact (TagKind.opening.inj h).symm

/-- How a call of `parseReal` ends. `parent` and `stream` are the changed objects, also where the
call has failed. -/
inductive ParseResult where
  | returned (ok : Bool) (parent : LZData) (stream : WrapperStream)
  | fault (f : ParseFault)

/-- `xmlParser::parseReal`. `isRoot` is `parent == m_root`. One pass of the loop is one call
here. A child belongs to its parent from `addChild` on, so it stays there on a failure. -/
def parseReal : Nat → Bool → LZData → WrapperStream → Option ParseResult
  | 0, _, _, _ => none
  | fuel + 1, isRoot, parent, s =>
    if s.empty then some (.returned isRoot parent s)
    else
      match s.find '<' with
      | none => some (.returned isRoot parent s)
      | some begin' =>
        -- searched from the index as well, so it may stand in front of the tag
        match s.find '>' with
        | none => some (.returned false parent s)
        | some end' =>
          let s := s.seek (end' + 1)
          match s.getRange [] (begin' + 1) end' with
          | .error f => some (.fault f)
          | .ok (_, tag) =>
            match tagKind (trimString tag) with
            -- the implicit root has a tag, too
            | .closing tag => some (.returned (tag = parent.tag) parent s)
            | .attr tag => parseReal fuel isRoot (parent.addChild ⟨tag, [], []⟩) s
            | .opening tag =>
              let begin' := s.index
              -- the text up to the next tag is the value, whatever it holds
              match s.find '<' with
              | none => some (.returned false (parent.addChild ⟨tag, [], []⟩) s)
              | some end' =>
                let s := s.seek end'
                match s.getRange [] begin' end' with
                | .error f => some (.fault f)
                | .ok (_, value) =>
                  match parseReal fuel false ⟨tag, trimString value, []⟩ s with
                  | none => none
                  | some (.fault f) => some (.fault f)
                  -- a child that fails fails its parent
                  | some (.returned false node s) =>
                    some (.returned false (parent.addChild node) s)
                  | some (.returned true node s) => parseReal fuel isRoot (parent.addChild node) s

/-- The tag of the root that `parse` makes. -/
def rootTag : Text := "root".toList

/-- `xmlParser::parse`. `none` is a call without a parent. -/
def parse (s : WrapperStream) (parent : Option LZData) : Option ParseResult :=
  parseReal (s.size + 1) true (parent.getD ⟨rootTag, [], []⟩) s

end XmlParser

namespace Xml

/-- `xml::createFromBuffer`. The parser does not say whether it succeeded: `parse` is called for
its effect on the root. -/
def createFromBuffer (buffer : Text) : Option (Except ParseFault LZData) :=
  match XmlParser.parse (.ofText buffer) none with
  | none => none
  | some (.fault f) => some (.error f)
  | some (.returned _ root _) => some (.ok root)

end Xml

end OnlineJudger
