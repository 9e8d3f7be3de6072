import OnlineJudger.Lib.SqlText
import OnlineJudger.Acm.Utilities
import OnlineJudger.Judger.JudgeTask

/-!
# `OnlineJudger.Judger.DBManagerSql`: the texts of the statements

The statements that `DBManager::doWrite` formats for a finished task, with the templates and the
arguments of `Judger/DBManager.cpp`, and `escapeString` of `acm/ZMySql.cpp`. What the statements
do to the tables is in `Judger.Database`.

`mysql_real_escape_string` belongs to the library of the server. It is the argument `escape`, and
`RealEscape` is what its documentation says. The texts of a task are wide, and those of a statement
are bytes in the code page `page` of the system.
-/

set_option autoImplicit false

namespace OnlineJudger

open Lib

/-! ### `sprintf_s` -/

/-- An argument of `sprintf_s`: what the code passes to `%d`, to `%s` and to `%f`. Each kind has one
conversion. -/
inductive FormatArg where
  | int (n : Int)
  | string (str : Text)
  | float (r : Rat)
  deriving DecidableEq, Repr

/-- `%f` of a number that is not negative: six digits behind the point, the last one rounded away
from zero in the middle between two. -/
def formatFloat (r : Rat) : Text :=
  let micro := ⌊r * 1000000 + 1 / 2⌋.toNat
  Nat.toDigits 10 (micro / 1000000) ++ '.' ::
    [100000, 10000, 1000, 100, 10, 1].map fun unit => Nat.digitChar (micro / unit % 10)

/-- One conversion. An argument of another kind is no call of the code. -/
def formatArg : Char → FormatArg → Text
  | 'd', .int n => formatInt n
  | 's', .string str => cString str
  | 'f', .float r => formatFloat r
  | _, _ => []

/-- The text that `sprintf` makes of a format and its arguments. The formats of the code have no
other conversion, and no percent sign on its own. -/
def sprintf : Text → List FormatArg → Text
  | '%' :: conversion :: format, arg :: args => formatArg conversion arg ++ sprintf format args
  | ch :: format, args => ch :: sprintf format args
  | [], _ => []

/-- `sprintf_s` into a buffer of `size` characters. `none` is its overflow handler, which ends the
process: the text and its NUL do not fit. -/
def sprintf_s (size : ℕ) (format : Text) (args : List FormatArg) : Option Text :=
  if (sprintf format args).length + 1 ≤ size then some (sprintf format args) else none

/-! ### Escaping -/

/-- The characters that the library documents as escaped: those that could end a literal or a
statement, and those that would spoil a log. -/
def needsEscape (ch : Char) : Bool :=
  ['\x00', '\n', '\r', '\\', '\'', '"', '\x1a'].contains ch

/-- What the documentation says of `mysql_real_escape_string`, on a connection with single byte
characters: each special character takes two, no NUL is left, and the server reads the result back
inside either kind of quotes. -/
structure RealEscape (escape : Text → Text) : Prop where
  length : ∀ str, (escape str).length = str.length + str.countP needsEscape
  noNul : ∀ str, '\x00' ∉ escape str
  unquote : ∀ quote, Sql.isQuote quote = true → ∀ str, Sql.unquote quote (escape str) = some str

/-- `ZMySql::escapeString`: the library's escape, cut at the first NUL as a C string. -/
def ZMySql.escapeString (escape : Text → Text) (str : Text) : Text := trimPartStringA (escape str)

/-! ### The statements of a finished task -/

namespace DBManager

/-- The template of the result of a task. -/
def sqlUpdateSolution : Text :=
  "UPDATE `solution` SET `result`=%d, `time`=%d, ".toList ++
    "`memory`=%d, `judgetime`=NOW(), `pass_rate`=%f ".toList ++
    "WHERE `solution_id` = %d".toList

/-- The template of the delete in front of a new compile error. -/
def sqlDeleteCompile : Text := "DELETE FROM `compileinfo` WHERE `solution_id`=%d".toList

/-- The template of a compile error. The text stands between double quotes. -/
def sqlInsertCompile : Text :=
  "INSERT INTO `compileinfo`(solution_id, error)VALUES(%d, \"%s\")".toList

/-- The template of the number of problems that a user has solved. The name stands between single
quotes, twice. -/
def sqlUpdateUserSolved : Text :=
  "UPDATE `users` SET `solved`=".toList ++
    ("(SELECT count(DISTINCT `problem_id`) FROM `solution` ".toList ++
      "WHERE `user_id`='%s' AND `result`=%d) ".toList) ++
    "WHERE `user_id`='%s'".toList

/-- The template of the number of submissions of a user. -/
def sqlUpdateUserSubmit : Text :=
  "UPDATE `users` SET `submit`=".toList ++
    "(SELECT count(*) FROM `solution` WHERE `user_id`='%s') ".toList ++
    "WHERE `user_id`='%s'".toList

/-- The template of the number of accepted solutions of a problem. -/
def sqlUpdateProblemAccept : Text :=
  "UPDATE `problem` SET `accepted`=".toList ++
    "(SELECT count(*) FROM `solution` WHERE `problem_id`='%d' AND `result`='%d') ".toList ++
    "WHERE `problem_id`='%d'".toList

/-- The template of the number of submissions of a problem. In front of its last `WHERE` there is no
blank, and the server needs none. -/
def sqlUpdateProblemSubmit : Text :=
  "UPDATE `problem` SET `submit`=".toList ++
    "(SELECT count(*) FROM `solution` WHERE `problem_id`='%d')".toList ++
    "WHERE `problem_id`='%d'".toList

/-- A call of `sprintf_s` for the query behind it: the template and the arguments. The text is only
made when the call runs. -/
structure SqlCall where
  format : Text
  args : List FormatArg

/-- The text of the statement, if it fits. -/
def SqlCall.text (call : SqlCall) : Text := sprintf call.format call.args

/-- The size of the buffers, which is the same in all calls. It does not depend on the lengths of
the arguments. -/
def bufferSize : ℕ := 1024

/-- `sprintf_s(buffer, 1024, ...)`. -/
def SqlCall.run (call : SqlCall) : Option Text := sprintf_s bufferSize call.format call.args

/-- `updateSolution`: one statement with numbers only, so its length has a bound. -/
def updateSolution (task : TaskBase) : List SqlCall :=
  [⟨sqlUpdateSolution,
    [.int task.result, .int task.runTime, .int task.runMemory, .float task.passRate,
      .int task.solutionID]⟩]

/-- `updateProblem`: two statements with numbers only. They count accepted solutions and all
submissions. -/
def updateProblem (config : Config) (task : TaskBase) : List SqlCall :=
  [⟨sqlUpdateProblemAccept, [.int task.problemID, .int config.JE_ACCEPT, .int task.problemID]⟩,
    ⟨sqlUpdateProblemSubmit, [.int task.problemID, .int task.problemID]⟩]

/-- The first statement of `updateUser`. The user name is converted to the code page, and it is not
escaped. -/
def userSolvedCall (page : CodePage) (config : Config) (task : TaskBase) : SqlCall :=
  let userName := wcharToChar page task.userName
  ⟨sqlUpdateUserSolved, [.string userName, .int config.JE_ACCEPT, .string userName]⟩

/-- The second one, with the same name. It stands in the statement twice, so it counts twice for the
buffer. -/
def userSubmitCall (page : CodePage) (task : TaskBase) : SqlCall :=
  let userName := wcharToChar page task.userName
  ⟨sqlUpdateUserSubmit, [.string userName, .string userName]⟩

/-- `updateUser`: the two statements about the user of the task. Each one formats the name anew. -/
def updateUser (page : CodePage) (config : Config) (task : TaskBase) : List SqlCall :=
  [userSolvedCall page config task, userSubmitCall page task]

/-- `updateInfo`. The error text is stored for a compile error only, converted and escaped. -/
def updateInfo (page : CodePage) (escape : Text → Text) (config : Config) (task : TaskBase) :
    List SqlCall :=
  ⟨sqlDeleteCompile, [.int task.solutionID]⟩ ::
    if task.result = config.JE_COMPLIE then
      let errorStr := ZMySql.escapeString escape (wcharToChar page task.compileErrorStr)
      [⟨sqlInsertCompile, [.int task.solutionID, .string errorStr]⟩]
    else []

/-- The statements that `doWrite` formats for one task, in order. Whether a query before one fails
plays no part in that. -/
def doWriteCalls (page : CodePage) (escape : Text → Text) (config : Config) (task : TaskBase) :
    List SqlCall :=
  updateSolution task ++ updateUser page config task ++ updateProblem config task ++
    updateInfo page escape config task

end DBManager

end OnlineJudger
