import OnlineJudger.Lib.SqlWhere
import OnlineJudger.Judger.DBManagerSql
import Mathlib.Data.List.Dedup

/-!
# `OnlineJudger.Judger.Server`: the server behind the connection

`updateUser` of `Judger/DBManager.cpp` formats the user name into its statements as it is, so what
they do is up to their text. A `Server` says what it makes of the text of an `UPDATE` of `users`.
Such a statement changes rows of `users` only, and it reads `solution` in its subquery. The server
is not part of the repository, and it is a parameter. `execUpdateUsers` is one that evaluates the
conditions of `Lib.SqlWhere`. It compares texts exactly, as in a column with a binary collation.

The other statements have no texts, or an escaped one. `Judger.Database` says what they do.
-/

set_option autoImplicit false

namespace OnlineJudger

/-- A row of `solution`. A text is kept as its bytes. -/
structure SolutionRow where
  solutionID : Int
  problemID : Int
  userID : Text
  language : Int
  result : Int
  time : Int := 0
  memory : Int := 0
  passRate : Rat := 0
  deriving DecidableEq, Repr

/-- A row of `users`, with the two numbers that the judge keeps for the ranking. -/
structure UserRow where
  userID : Text
  solved : ℕ := 0
  submit : ℕ := 0
  deriving DecidableEq, Repr

/-- Change the rows of `users` with this key. More than one row may have it here. -/
def setUser (users : List UserRow) (userID : Text) (f : UserRow → UserRow) : List UserRow :=
  users.map fun r => if r.userID = userID then f r else r

/-- `count(DISTINCT problem_id)` of the rows: how many problems there are among them, each counted
once. -/
def distinctProblems (rows : List SolutionRow) : ℕ :=
  (rows.map SolutionRow.problemID).dedup.length

/-! ### A server -/

namespace Server

open Lib.Sql

/-- The columns of a row of `solution` that a condition can compare. -/
def solutionColumn (r : SolutionRow) (name : Text) : Text :=
  if name = "user_id".toList then r.userID
  else if name = "result".toList then formatInt r.result
  else if name = "problem_id".toList then formatInt r.problemID
  else []

/-- The columns of a row of `users`. -/
def userColumn (r : UserRow) (name : Text) : Text :=
  if name = "user_id".toList then r.userID else []

/-- An update of `users`: the column, the condition of its subquery, and its own condition. -/
inductive UsersUpdate where
  | solved (inner outer : Condition)
  | submit (inner outer : Condition)
  deriving DecidableEq, Repr

/-- The two conditions of a statement, behind its head. -/
def readConditions (ts : List Lib.SqlToken) : Option (Condition × Condition) := do
  let (inner, ts) ← condition ts
  let ts ← dropCode ") WHERE ".toList ts
  let (outer, ts) ← condition ts
  if ts = [] then pure (inner, outer) else none

/-- The text of the statement of `updateUserSolved`, up to the first condition. -/
def solvedHead : Text :=
  "UPDATE `users` SET `solved`=".toList ++
    "(SELECT count(DISTINCT `problem_id`) FROM `solution` WHERE ".toList

/-- The text of the statement of `updateUserSubmit`, up to the first condition. -/
def submitHead : Text :=
  "UPDATE `users` SET `submit`=".toList ++ "(SELECT count(*) FROM `solution` WHERE ".toList

/-- Read a statement. `none` is one that is neither of the two updates, or that MySQL would not
parse. A user name is a part of the text, so it may change what is read. -/
def readUpdate (text : Text) : Option UsersUpdate := do
  let ts ← lex text
  match dropCode solvedHead ts with
  | some ts => (readConditions ts).map fun c => .solved c.1 c.2
  | none =>
    let ts ← dropCode submitHead ts
    (readConditions ts).map fun c => .submit c.1 c.2

/-- Execute a statement on `users`. One that cannot be read is an error and changes nothing. The
subquery is evaluated once, over the rows as they are. -/
def execUpdateUsers (text : Text) (solution : List SolutionRow) (users : List UserRow) :
    List UserRow :=
  match readUpdate text with
  | some (.solved inner outer) =>
    let rows := solution.filter fun r => inner.holds (solutionColumn r)
    users.map fun r =>
      if outer.holds (userColumn r) then { r with solved := distinctProblems rows } else r
  | some (.submit inner outer) =>
    let rows := solution.filter fun r => inner.holds (solutionColumn r)
    users.map fun r =>
      if outer.holds (userColumn r) then { r with submit := rows.length } else r
  | none => users

end Server

/-- What lies between the judge and its tables. Both parts are outside of the repository, so the
model leaves them open and the theorems say what they need of them. -/
structure Server where
  /-- The code page in which the judge's texts go to the server and come back. -/
  page : CodePage := latin1
  /-- What a statement on `users` with this text makes of `solution` and `users`. -/
  updateUsers : Text → List SolutionRow → List UserRow → List UserRow := Server.execUpdateUsers

end OnlineJudger
