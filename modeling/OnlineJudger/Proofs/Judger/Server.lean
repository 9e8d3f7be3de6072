import OnlineJudger.Judger.Server
import OnlineJudger.Proofs.Judger.DBManagerLiterals
import OnlineJudger.Proofs.LZData.TypedValues

/-!
# `OnlineJudger.Proofs.Judger.Server`: what the server makes of the statements about users

`Server.ReadsUsers` is what the counts rest on. A statement of `updateUser` that has the structure
of its template, with the name of the task's user as its literals, counts the rows of this user and
stores the number in the rows of this user. It says nothing about a statement of another structure.

`readsUsers_exec` shows it of `execUpdateUsers`: the tokens of the two statements are read condition
by condition, with the rules of `Lib.SqlWhere`.
-/

set_option autoImplicit false

namespace OnlineJudger

open Lib Lib.Sql DBManager

/-- What a server does with the statements about the user of a task, when they have the structure of
their templates. Of any other text nothing is assumed. -/
structure Server.ReadsUsers (server : Server) : Prop where
  /-- `sqlUpdateUserSolved`. -/
  solved : ∀ (config : Config) (task : TaskBase) (solution : List SolutionRow)
    (users : List UserRow),
    Plain '\'' (wcharToChar server.page task.userName) →
      server.updateUsers (userSolvedCall server.page config task).text solution users =
        setUser users (wcharToChar server.page task.userName) fun r => { r with
          solved := distinctProblems (solution.filter fun row =>
            row.userID = wcharToChar server.page task.userName ∧
              row.result = config.JE_ACCEPT) }
  /-- `sqlUpdateUserSubmit`. -/
  submit : ∀ (task : TaskBase) (solution : List SolutionRow) (users : List UserRow),
    Plain '\'' (wcharToChar server.page task.userName) →
      server.updateUsers (userSubmitCall server.page task).text solution users =
        setUser users (wcharToChar server.page task.userName) fun r => { r with
          submit := (solution.filter fun row =>
            row.userID = wcharToChar server.page task.userName).length }

namespace Server

/-! ### Reading the conditions of the templates -/

/-- The code of a quoted column and the sign behind it. -/
def columnCode (name : Text) : Text := backquote :: (name ++ [backquote, '='])

/-- A column is compared with what stands behind the sign. -/
theorem comparison_column {name : Text} (hname : backquote ∉ name) {ts rest : List SqlToken}
    {o : Operand} (h : operand ts = some (o, rest)) :
    comparison ((columnCode name).map .code ++ ts) = some ((.column name, o), rest) := by
  have hsplit : columnCode name = backquote :: (name ++ [backquote]) ++ ['='] := by
    simp only [columnCode, List.cons_append, List.append_assoc, List.nil_append]
  rw [hsplit, List.map_append, List.append_assoc, comparison, operand_column hname]
  simp only [Option.bind_eq_bind, Option.bind_some, dropCode_append, h, Option.pure_def]

/-- `user_id` is compared with a literal. -/
theorem comparison_user (name : Text) (rest : List SqlToken) :
    comparison ((columnCode "user_id".toList).map .code ++ .literal name :: rest) =
      some ((.column "user_id".toList, .constant name), rest) :=
  comparison_column (by decide) (operand_literal name rest)

/-- A number has digits and a sign only. -/
theorem isNumber_of_mem_formatInt (n : Int) :
    ∀ d ∈ formatInt n, (d.isDigit || d == '-') = true := by
  intro d hd
  rcases of_mem_formatInt hd with rfl | hdigit
  · rfl
  · rw [hdigit]
    rfl

/-- `result` is compared with a number. -/
theorem comparison_result (accept : Int) (rest : List SqlToken) :
    comparison ((columnCode "result".toList).map .code ++
        ((formatInt accept).map .code ++ .code ')' :: rest)) =
      some ((.column "result".toList, .constant (formatInt accept)), .code ')' :: rest) :=
  comparison_column (by decide)
    (operand_number (formatInt_ne_nil accept) (isNumber_of_mem_formatInt accept) rest)

/-- The condition behind the subquery: the rows of one user. -/
theorem condition_user (name : Text) {rest : List SqlToken} (hrest : Closed rest) :
    condition ((columnCode "user_id".toList).map .code ++ .literal name :: rest) =
      some ([[(.column "user_id".toList, .constant name)]], rest) :=
  condition_comparison (comparison_user name rest) hrest

/-- The code between the subquery and the condition of the update. -/
theorem readConditions_user {ts : List SqlToken} {inner : Condition} (name : Text)
    (h : condition ts = some (inner, ") WHERE ".toList.map .code ++
      ((columnCode "user_id".toList).map .code ++ [.literal name]))) :
    readConditions ts = some (inner, [[(.column "user_id".toList, .constant name)]]) := by
  have hend : Closed ([] : List SqlToken) := by simp [Closed]
  have houter := condition_user name hend
  simp only [readConditions, h, Option.bind_eq_bind, Option.bind_some, dropCode_append, houter,
    Option.pure_def, if_true]

/-! ### Reading the two statements -/

/-- The head of `sqlUpdateUserSolved` is not the other one. -/
theorem dropCode_solvedHead_submit (ts : List SqlToken) :
    dropCode solvedHead (submitHead.map .code ++ ts) = none := by
  rfl

/-- The tokens of `sqlUpdateUserSolved`. Behind the conversion the statement is a list of tokens,
and the reader takes them one by one; the name stands in it as a literal. -/
theorem readUpdate_solved {accept : Int} {name text : Text}
    (h : lex text = some (tokens (literals (solvedCodes accept) name name) [])) :
    readUpdate text = some (.solved
      [[(.column "user_id".toList, .constant name),
        (.column "result".toList, .constant (formatInt accept))]]
      [[(.column "user_id".toList, .constant name)]]) := by
  -- the template with its literals, cut into the pieces that the parsers take
  have htokens : tokens (literals (solvedCodes accept) name name) [] =
      solvedHead.map .code ++ ((columnCode "user_id".toList).map .code ++ .literal name ::
        (" AND ".toList.map .code ++ ((columnCode "result".toList).map .code ++
          ((formatInt accept).map .code ++ .code ')' :: (" WHERE ".toList.map .code ++
            ((columnCode "user_id".toList).map .code ++ [.literal name])))))) := by
    simp only [literals, solvedCodes, List.map_cons, List.map_nil, tokens, List.map_append,
      List.append_assoc]
    rfl
  -- first the condition in the brackets, then the one behind them
  have hinner := condition_and (comparison_user name _)
    (comparison_result accept (" WHERE ".toList.map .code ++
      ((columnCode "user_id".toList).map .code ++ [.literal name])))
    (by simp [Closed]) (by simp [columnCode])
  have hconditions := readConditions_user name hinner
  rw [readUpdate, h, htokens]
  simp only [Option.bind_eq_bind, Option.bind_some, dropCode_append, hconditions, Option.map_some]

/-- The tokens of `sqlUpdateUserSubmit`. -/
theorem readUpdate_submit {name text : Text}
    (h : lex text = some (tokens (literals submitCodes name name) [])) :
    readUpdate text = some (.submit [[(.column "user_id".toList, .constant name)]]
      [[(.column "user_id".toList, .constant name)]]) := by
  have htokens : tokens (literals submitCodes name name) [] =
      submitHead.map .code ++ ((columnCode "user_id".toList).map .code ++ .literal name ::
        (") WHERE ".toList.map .code ++
          ((columnCode "user_id".toList).map .code ++ [.literal name]))) := by
    simp only [literals, submitCodes, List.map_cons, List.map_nil, tokens, List.map_append,
      List.append_assoc]
    rfl
  -- the name ends the condition, so a closing bracket may follow
  have hend : Closed (") WHERE ".toList.map .code ++
      ((columnCode "user_id".toList).map .code ++ [.literal name])) := by simp [Closed]
  have hinner := condition_user name hend
  have hconditions := readConditions_user name hinner
  rw [readUpdate, h, htokens]
  simp only [Option.bind_eq_bind, Option.bind_some, dropCode_solvedHead_submit, dropCode_append,
    hconditions, Option.map_some]

/-! ### The server that evaluates conditions -/

/-- The rows of a user. -/
theorem holds_user (row : Text → Text) (name : Text) :
    Condition.holds row [[(.column "user_id".toList, .constant name)]] =
      decide (row "user_id".toList = name) := by
  simp only [Condition.holds, List.any_cons, List.any_nil, List.all_cons, List.all_nil,
    Operand.eval, Bool.and_true, Bool.or_false, beq_eq_decide]

/-- The rows of a user with a result. -/
theorem holds_user_result (r : SolutionRow) (name : Text) (accept : Int) :
    Condition.holds (solutionColumn r) [[(.column "user_id".toList, .constant name),
        (.column "result".toList, .constant (formatInt accept))]] =
      decide (r.userID = name ∧ r.result = accept) := by
  have hresult : formatInt r.result = formatInt accept ↔ r.result = accept :=
    ⟨formatInt_injective, congrArg formatInt⟩
  have huser : solutionColumn r "user_id".toList = r.userID := rfl
  have hcolumn : solutionColumn r "result".toList = formatInt r.result := rfl
  simp only [Condition.holds, List.any_cons, List.any_nil, List.all_cons, List.all_nil,
    Operand.eval, Bool.and_true, Bool.or_false, beq_eq_decide, huser, hcolumn, hresult,
    Bool.decide_and]

/-- `execUpdateUsers` reads plain names. Such a name makes a literal of its own, so each of the two
statements names one user, and its count is the one that the source asks for. -/
theorem readsUsers_exec (page : CodePage) : ReadsUsers { page } where
  solved config task solution users hplain := by
    -- a plain name leaves the text as it was assembled
    have hlex := lex_of_plain (codesOk_solved config.JE_ACCEPT) (by simp [solvedCodes]) hplain
    have htext : (userSolvedCall page config task).text = assemble _ [] :=
      text_solved config.JE_ACCEPT _ (wcharToChar page task.userName)
    rw [cString_wcharToChar] at htext
    dsimp only
    rw [execUpdateUsers, readUpdate_solved (htext ▸ hlex)]
    simp only [holds_user, holds_user_result, decide_eq_true_eq]
    rfl
  submit task solution users hplain := by
    -- the same for the statement of the submissions
    have hlex := lex_of_plain codesOk_submit (by simp [submitCodes]) hplain
    have htext : (userSubmitCall page task).text = assemble _ [] :=
      text_submit _ (wcharToChar page task.userName)
    rw [cString_wcharToChar] at htext
    dsimp only
    rw [execUpdateUsers, readUpdate_submit (htext ▸ hlex)]
    simp only [holds_user, decide_eq_true_eq]
    rfl

end Server

end OnlineJudger
