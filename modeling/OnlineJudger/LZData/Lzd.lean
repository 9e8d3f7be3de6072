import OnlineJudger.LZData.LZData

/-!
# `OnlineJudger.LZData.Lzd`: the lzd printer and parser

The model of `LZData/lzd.cpp`, `LZData/lzdParser.h` and `LZData/lzdParser.cpp`. `endl` is one
newline.

A `cParser` reads one section, up to its closing brace. At an opening brace it makes a second
`cParser` for the text that is left, so `parseLoop` is a loop with a recursive call and runs
on fuel here. The node of the section belongs to its parent while the second parser works on
it. Nothing else touches the parent meanwhile, so the model adds the node when it is ready.

`testOutput` prints each error description. The model keeps the printed errors in a list,
with those of the inner parsers in their place.
-/

set_option autoImplicit false

namespace OnlineJudger

/-- `convertValue` escapes what would end a value. A backslash is not escaped, so a value with one
may come back as another. -/
def convertValue (src : Text) : Text :=
  src.flatMap fun ch => if ch = '#' ∨ ch = '}' ∨ ch = ';' then ['\\', ch] else [ch]

namespace Lzd

mutual

/-- `lzd::print`. The tag and the value of the node itself are not printed: the file stands for the
root, and only its children are in it. -/
def print (depth : Nat) : LZData → Text
  | ⟨_, _, children⟩ => printChildren depth children

/-- The loop of `lzd::print`. A child with children of its own is a section, and any other one is an
assignment. -/
def printChildren (depth : Nat) : List LZData → Text
  | [] => []
  | ptr :: children =>
    (if ptr.countChildren > 0 then
      printTable depth ++ ptr.tag ++ "\n".toList ++ (printTable depth ++ "\x7b\n".toList) ++
        (print (depth + 1) ptr ++ (printTable depth ++ "\x7d\n".toList))
    else printTable depth ++ ptr.tag ++ " = ".toList ++ convertValue ptr.value ++ "\n".toList) ++
      printChildren depth children

end

end Lzd

/-- `isVarNameValid`. It accepts every name, so the third error is never raised. -/
def isVarNameValid (_name : Text) : Bool := true

/-- An error as `onError` reports it: what the description is made of, and the place. The parser
prints the description and goes on. -/
structure ErrorReport where
  id : Nat
  /-- `m_curLine` when the error is reported. -/
  curLine : Nat
  variable' : Text
  curVariable : Text
  /-- The text that was left when the error was raised. The code does not keep it. -/
  left : Text
  deriving DecidableEq, Repr

/-- The line number in the description. Lines count from 1 there. -/
def ErrorReport.line (e : ErrorReport) : Nat := e.curLine + 1

/-- `m_errorDesc`, in the words of the source. -/
def ErrorReport.desc (e : ErrorReport) : Text :=
  "行 ".toList ++ (toString e.line).toList ++ " : ".toList ++
    match e.id with
    | 1 => "在尝试赋值的时候，没有得到任何可赋值的变量。".toList
    | 2 => "同一行上出现了两个变量名 :".toList ++ e.variable' ++ " 和 ".toList ++ e.curVariable
    | 3 => "非法变量名。".toList
    | _ => "未知错误。".toList

/-- A `cParser`: the text that is left, the node of its section, the error, and the pending names.
`m_pText` is not used. -/
structure CParser where
  strText : Text
  curNode : LZData
  bEnd : Bool := false
  errorID : Nat := 0
  errorDesc : Text := []
  variable' : Text := []
  varLine : Nat := 0
  curVariable : Text := []
  curLine : Nat := 0
  /-- What `testOutput` has printed. -/
  output : List ErrorReport := []

namespace CParser

/-- `error`: an error is set. Each pass of the loop looks at it at its end. -/
def error (p : CParser) : Bool := p.errorID ≠ 0

/-- `setError`. The number 0 clears the error. -/
def setError (p : CParser) (id : Nat) : CParser := { p with errorID := id }

/-- `setVar`. No call gives it a line, so the name belongs to the current one. -/
def setVar (p : CParser) (name : Text) : CParser :=
  { p with variable' := name, varLine := p.curLine }

/-- Both pending names are dropped. -/
def clearNames (p : CParser) : CParser := { p with curVariable := [], variable' := [] }

/-- `parseVarName`: the name that a section or an assignment takes, trimmed, or an error. One name
may stand on the line before, so a section can have its name above its brace. -/
def parseVarName (p : CParser) : Text × CParser :=
  if p.variable' = [] ∧ p.curVariable = [] then ([], p.setError 1)
  else if p.variable' ≠ [] ∧ p.curVariable ≠ [] ∧ p.varLine = p.curLine then ([], p.setError 2)
  else
    let name :=
      -- two names on different lines: the later one counts
      if p.variable' ≠ [] ∧ p.curVariable ≠ [] then p.curVariable
      else if p.variable' ≠ [] then p.variable'
      else p.curVariable
    if isVarNameValid name = false then ([], p.setError 3) else (trimString name, p)

/-- `skipSpace`: blanks and tabulators. -/
def skipSpace (p : CParser) : CParser :=
  { p with strText := p.strText.dropWhile fun ch => ch == ' ' || ch == '\t' }

/-- `skipToEnd`: up to the end of the line or a closing brace, which stay. -/
def skipToEnd (p : CParser) : CParser :=
  { p with strText := p.strText.dropWhile fun ch => !(ch == '\n' || ch == '}') }

/-- `skipToReturn`: up to the end of the line, which stays. -/
def skipToReturn (p : CParser) : CParser :=
  { p with strText := p.strText.dropWhile fun ch => !(ch == '\n') }

/-- The characters that end a value. -/
def isValueEnd (ch : Char) : Bool := ch == '}' || ch == '#' || ch == '\n' || ch == ';'

/-- The characters that a backslash escapes. -/
def isEscaped (ch : Char) : Bool := ch == '}' || ch == '#' || ch == ';' || ch == '\\'

/-- The loop of `getAStr`: the characters of the value, and the text behind it. -/
def getAStrLoop : Text → Text × Text
  | [] => ([], [])
  | [ch] => if isValueEnd ch then ([], [ch]) else ([ch], [])
  | ch :: next :: text =>
    if isValueEnd ch then ([], ch :: next :: text)
    else if ch = '\\' ∧ isEscaped next then
      (next :: (getAStrLoop text).1, (getAStrLoop text).2)
    else (ch :: (getAStrLoop (next :: text)).1, (getAStrLoop (next :: text)).2)

/-- `getAStr`: the value in front of the next end, trimmed, with its escapes undone. What ended the
value stays in the text. -/
def getAStr (p : CParser) : Text × CParser :=
  let r := getAStrLoop p.strText
  (trimString r.1, { p with strText := r.2 })

/-- `cParser parser(m_strText, node)`, with a new node of this name. The nested parser starts with
no pending name. -/
def inner (p : CParser) (name : Text) : CParser where
  strText := p.strText
  curNode := ⟨name, [], []⟩
  output := p.output

/-- `onLBraket`. `parse` is the call of `parser.parse()`. The section is read by a parser of its
own, on the text that is left. -/
def onLBraket (parse : CParser → Option CParser) (p : CParser) : Option CParser :=
  let (name, p) := p.parseVarName
  let p := p.clearNames
  if p.error then some p
  else
    match parse (p.inner name) with
    | none => none
    | some parser =>
      some { p with
        curNode := p.curNode.addChild parser.curNode
        strText := parser.strText
        -- the inner parser has counted its own lines
        curLine := p.curLine + parser.curLine
        output := parser.output }

/-- `onRBraket` ends the loop of this parser. The outermost one has no other to go back to, so the
rest of its text is not read. -/
def onRBraket (p : CParser) : CParser := { p with bEnd := true }

/-- `onEqual`: an assignment writes to the node of the section. The name may be a path, since
`write` takes one. -/
def onEqual (p : CParser) : CParser :=
  let (name, p) := p.parseVarName
  let p := p.clearNames
  if p.error then p
  else
    let (value, p) := p.getAStr
    { p with curNode := (p.curNode.write name value).1 }

/-- `onReturn`: a name at the end of its line is kept for a brace or an equals sign that comes
later. -/
def onReturn (p : CParser) : CParser :=
  let (name, p) := p.parseVarName
  let p := p.clearNames
  if p.error then
    -- a line without a name is no error
    let p := p.setError 0
    { p with curLine := p.curLine + 1 }
  else
    let p := p.setVar name
    { p with curLine := p.curLine + 1 }

/-- `onSpace`: the name in front of the blank is complete. With another one on the same line there
are two. -/
def onSpace (p : CParser) : CParser :=
  if p.variable' ≠ [] ∧ p.curVariable ≠ [] then
    -- a second name behind a blank on the same line
    if p.varLine = p.curLine then p.setError 2
    else { p.setVar p.curVariable with curVariable := [] }.skipSpace
  else if p.variable' = [] ∧ p.curVariable ≠ [] then
    { p.setVar p.curVariable with curVariable := [] }.skipSpace
  else p.skipSpace

/-- `onComment` drops the rest of the line. A brace in a comment does not count. -/
def onComment (p : CParser) : CParser := p.skipToReturn

/-- `onOther`: a character of a name. Any character that is no sign of the format is one, a carriage
return too. -/
def onOther (p : CParser) (ch : Char) : CParser := { p with curVariable := p.curVariable ++ [ch] }

/-- `onError`: the error is reported and cleared, the rest of the line is dropped, and the pending
names with it. The parse goes on behind that. -/
def onError (p : CParser) : CParser :=
  let report : ErrorReport :=
    { id := p.errorID, curLine := p.curLine, variable' := p.variable', curVariable := p.curVariable,
      left := p.strText }
  -- the rest of the line is dropped, up to a closing brace
  let p := p.skipToEnd
  { p.clearNames.setError 0 with errorDesc := report.desc, output := p.output ++ [report] }

/-- The `switch` of `parse`: one function for each sign of the format, and one for every other
character. -/
def onChar (parse : CParser → Option CParser) (p : CParser) (ch : Char) : Option CParser :=
  if ch = '{' then p.onLBraket parse
  else if ch = '}' then some p.onRBraket
  else if ch = '=' then some p.onEqual
  else if ch = '\n' then some p.onReturn
  else if ch = ' ' ∨ ch = '\t' then some p.onSpace
  else if ch = '#' then some p.onComment
  else if ch = ';' then some p
  else some (p.onOther ch)

/-- The start of `parse`. The pending names are not cleared. -/
def reset (p : CParser) : CParser :=
  { p with bEnd := false, varLine := 0, curLine := 0, errorID := 0 }

/-- The loop of `parse`. One pass takes a character, and with an error the pass ends in
`onError`. -/
def parseLoop : Nat → CParser → Option CParser
  | 0, _ => none
  | fuel + 1, p =>
    match p.strText with
    | [] => some p
    | ch :: text =>
      if p.bEnd then some p
      else
        match onChar (fun parser => parseLoop fuel parser.reset) { p with strText := text } ch with
        | none => none
        | some p => parseLoop fuel (if p.error then p.onError else p)

/-- `parse`. Each pass of the loop takes a character, so the fuel suffices, also for the nested
parsers, which share it. -/
def parse (p : CParser) : Option CParser := parseLoop (p.strText.length + 1) p.reset

end CParser

end OnlineJudger
