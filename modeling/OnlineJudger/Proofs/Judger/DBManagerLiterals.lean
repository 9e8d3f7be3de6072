import OnlineJudger.Judger.DBManagerSql

/-!
# `OnlineJudger.Proofs.Judger.DBManagerLiterals`: texts inside the statements

`updateUser` puts the user name between single quotes as it is. `updateInfo` puts the compile
error between double quotes, and escapes it first. `SqlCall.Keeps` says that the server reads a
statement as its template, with these texts as its literals.

The statements are cut into code and literals (`text_solved`, `text_submit`, `text_insert`), and
the rules of `Lib.SqlText` do the rest.

* `statements_keep_iff`: the statements of a task keep their structure and their texts exactly when
  both texts survive the conversion to bytes and the user name is plain. The quotes and backslashes
  of a compile error do no harm.
-/

set_option autoImplicit false

namespace OnlineJudger

open Lib Lib.Sql

/-! ### Numbers and escaped texts -/

/-- A number has no quotes. So it opens no literal in a statement, and ends none. -/
theorem isQuote_of_mem_formatInt {n : Int} : ∀ ch ∈ formatInt n, isQuote ch = false := by
  -- a digit is no quotation mark
  have hdigits : ∀ m : ℕ, ∀ ch ∈ (Nat.repr m).toList, isQuote ch = false := by
    intro m ch hch
    have hdigit : ch.isDigit = true := by
      rw [Nat.repr_eq_ofList_toDigits, String.toList_ofList] at hch
      exact Nat.isDigit_of_mem_toDigits (by omega) (by omega) hch
    refine Bool.eq_false_iff.mpr fun hquote => ?_
    have hor : ch = '\'' ∨ ch = '"' := by simpa [isQuote] using hquote
    rcases hor with rfl | rfl <;> cases hdigit
  unfold formatInt
  cases n with
  | ofNat m => exact hdigits m
  | negSucc m =>
    intro ch hch
    have hch : ch ∈ ("-" ++ Nat.repr (m + 1)).toList := hch
    rw [String.toList_append] at hch
    rcases List.mem_append.mp hch with hsign | hch
    -- nor is the sign
    · have hsign : ch = '-' := by simpa using hsign
      rw [hsign]
      rfl
    · exact hdigits (m + 1) ch hch

/-- A text without quotes, as a check that can be run. -/
theorem forall_not_isQuote {code : Text} (h : (code.all fun ch => !isQuote ch) = true) :
    ∀ ch ∈ code, isQuote ch = false := by
  simpa only [List.all_eq_true, Bool.not_eq_true'] using h

/-- Code with a number in it. -/
theorem isQuote_of_mem_number {code code' : Text} (h : ∀ ch ∈ code, isQuote ch = false)
    (h' : ∀ ch ∈ code', isQuote ch = false) (n : Int) :
    ∀ ch ∈ code ++ (formatInt n ++ code'), isQuote ch = false :=
  List.forall_mem_append.mpr ⟨h, List.forall_mem_append.mpr ⟨isQuote_of_mem_formatInt, h'⟩⟩

/-- The escapes that the documentation of the library lists. -/
def escapeChar (ch : Char) : Text :=
  if ch = '\x00' then ['\\', '0']
  else if ch = '\n' then ['\\', 'n']
  else if ch = '\r' then ['\\', 'r']
  else if ch = '\x1a' then ['\\', 'Z']
  else if ch = '\\' ∨ ch = '\'' ∨ ch = '"' then ['\\', ch]
  else [ch]

/-- An `escape` that does what the documentation says. The conditions on the library are not empty,
since this one meets them. -/
def escapeText (str : Text) : Text := str.flatMap escapeChar

/-- One escaped character is read back: the escaped ones are those with an escape that the server
knows, and every other one stands for itself. -/
theorem unquote_escapeChar {quote : Char} (hquote : isQuote quote = true) (ch : Char)
    (rest : Text) :
    unquote quote (escapeChar ch ++ rest) = (unquote quote rest).map (ch :: ·) := by
  -- one case for each branch of `escapeChar`
  have hor : quote = '\'' ∨ quote = '"' := by simpa [isQuote] using hquote
  unfold escapeChar
  split_ifs with h0 hn hr hz hself
  · subst h0
    rfl
  · subst hn
    rfl
  · subst hr
    rfl
  · subst hz
    rfl
  -- the three characters that stand for themselves behind a backslash
  · have hunescape : unescape ch = [ch] := by
      rcases hself with rfl | rfl | rfl <;> rfl
    rw [List.cons_append, List.cons_append, unquote, if_pos rfl, hunescape]
    rfl
  -- a character that is not escaped is neither a backslash nor the quotation mark
  · simp only [not_or] at hself
    have hne : ch ≠ quote := by
      rcases hor with rfl | rfl
      · exact hself.2.1
      · exact hself.2.2
    cases rest with
    | nil =>
      show (if ch = '\\' ∨ ch = quote then none else some [ch]) = _
      rw [if_neg (not_or.mpr ⟨hself.1, hne⟩)]
      rfl
    | cons next rest => rw [List.singleton_append, unquote, if_neg hself.1, if_neg hne]

/-- It is one, so the assumption about the library can be met. Each field of `RealEscape` is shown
character by character. -/
theorem realEscape_escapeText : RealEscape escapeText where
  length str := by
    induction str with
    | nil => rfl
    | cons ch str ih =>
      have hch : (escapeChar ch).length = 1 + if needsEscape ch then 1 else 0 := by
        unfold escapeChar
        split_ifs <;> simp_all [needsEscape]
      rw [escapeText, List.flatMap_cons, List.length_append, List.countP_cons, List.length_cons,
        ← escapeText, ih, hch]
      omega
  noNul str := by
    intro hmem
    obtain ⟨ch, -, hch⟩ := List.mem_flatMap.mp hmem
    unfold escapeChar at hch
    split_ifs at hch with h0 hn hr hz hself
    · simp at hch
    · simp at hch
    · simp at hch
    · simp at hch
    -- a NUL would have been escaped
    · have hch : '\x00' = ch := by simpa using hch
      exact h0 hch.symm
    · have hch : '\x00' = ch := by simpa using hch
      exact h0 hch.symm
  unquote quote hquote str := by
    induction str with
    | nil => rfl
    | cons ch str ih =>
      rw [escapeText, List.flatMap_cons, unquote_escapeChar hquote, ← escapeText, ih]
      rfl

namespace DBManager

/-! ### The statements as code and literals -/

/-- The strings of the arguments are left as they stand in the format. -/
def placeholder : FormatArg → FormatArg
  | .string _ => .string "%s".toList
  | arg => arg

/-- The template of a statement: its numbers are filled in, and its strings are not. So it shows the
structure that the source means. -/
def SqlCall.template (call : SqlCall) : Text := sprintf call.format (call.args.map placeholder)

/-- The server reads the statement as its template, with these values for the literals. Nothing that
stands in a text becomes a part of the statement. -/
def SqlCall.Keeps (call : SqlCall) (values : List Text) : Prop :=
  ∃ ts, lex call.template = some ts ∧ lex call.text = some (fill ts values)

/-- The number of texts that the statement contains. -/
def SqlCall.texts (call : SqlCall) : ℕ := call.args.countP fun
  | .string _ => true
  | _ => false

/-- The text comes back from the bytes that it is converted to. A character that the code page does
not have is lost. -/
def Survives (page : CodePage) (text : Text) : Prop :=
  charToWChar page (wcharToChar page text) = text

/-- Two texts are compared. -/
instance (page : CodePage) (text : Text) : Decidable (Survives page text) := by
  unfold Survives
  infer_instance

/-- The server reads the statement as its template, each literal of it as the bytes of `text`, and
these bytes are the text, if the statement contains it at all. -/
def SqlCall.KeepsText (page : CodePage) (call : SqlCall) (text : Text) : Prop :=
  call.Keeps (List.replicate call.texts (wcharToChar page text)) ∧
    (0 < call.texts → Survives page text)

/-- Code in front of each literal, with the quote of the literal. All of them have one body and
are meant to have one value. -/
def literals (codes : List (Text × Char)) (body value : Text) : List Segment :=
  codes.map fun c => ⟨c.1, c.2, body, value⟩

/-- `sqlUpdateUserSolved` in front of its literals. -/
def solvedCodes (accept : Int) : List (Text × Char) :=
  [("UPDATE `users` SET `solved`=".toList ++
      ("(SELECT count(DISTINCT `problem_id`) FROM `solution` ".toList ++
        "WHERE `user_id`=".toList), '\''),
    (" AND `result`=".toList ++ (formatInt accept ++ ") WHERE `user_id`=".toList), '\'')]

/-- `sqlUpdateUserSubmit` in front of its literals. -/
def submitCodes : List (Text × Char) :=
  [("UPDATE `users` SET `submit`=".toList ++
      "(SELECT count(*) FROM `solution` WHERE `user_id`=".toList, '\''),
    (") WHERE `user_id`=".toList, '\'')]

/-- `sqlInsertCompile` in front of its literal. -/
def insertCodes (solutionID : Int) : List (Text × Char) :=
  [("INSERT INTO `compileinfo`(solution_id, error)VALUES(".toList ++
      (formatInt solutionID ++ ", ".toList), '"')]

set_option maxRecDepth 4000 in
/-- The statement that counts the solved problems. -/
theorem text_solved (accept : Int) (name value : Text) :
    sprintf sqlUpdateUserSolved [.string name, .int accept, .string name] =
      assemble (literals (solvedCodes accept) (cString name) value) [] := by
  simp only [literals, solvedCodes, List.map_cons, List.map_nil, assemble, List.append_assoc]
  rfl

set_option maxRecDepth 4000 in
/-- The statement that counts the submissions. -/
theorem text_submit (name value : Text) :
    sprintf sqlUpdateUserSubmit [.string name, .string name] =
      assemble (literals submitCodes (cString name) value) [] := by
  rfl

set_option maxRecDepth 4000 in
/-- The statement with the compile error. -/
theorem text_insert (solutionID : Int) (errorStr value : Text) :
    sprintf sqlInsertCompile [.int solutionID, .string errorStr] =
      assemble (literals (insertCodes solutionID) (cString errorStr) value) ")".toList := by
  simp only [literals, insertCodes, List.map_cons, List.map_nil, assemble, List.append_assoc]
  rfl

/-- A placeholder has no NUL. -/
theorem cString_placeholder : cString "%s".toList = "%s".toList := rfl

/-- The template of the statement that counts the solved problems. -/
theorem template_solved (accept : Int) (name : Text) :
    SqlCall.template ⟨sqlUpdateUserSolved, [.string name, .int accept, .string name]⟩ =
      assemble (literals (solvedCodes accept) "%s".toList "%s".toList) [] := by
  simp only [SqlCall.template, List.map_cons, List.map_nil, placeholder]
  rw [text_solved accept _ "%s".toList, cString_placeholder]

/-- The template of the one that counts the submissions. -/
theorem template_submit (name : Text) :
    SqlCall.template ⟨sqlUpdateUserSubmit, [.string name, .string name]⟩ =
      assemble (literals submitCodes "%s".toList "%s".toList) [] := by
  simp only [SqlCall.template, List.map_cons, List.map_nil, placeholder]
  rw [text_submit _ "%s".toList, cString_placeholder]

/-- The template of the one with the compile error. -/
theorem template_insert (solutionID : Int) (errorStr : Text) :
    SqlCall.template ⟨sqlInsertCompile, [.int solutionID, .string errorStr]⟩ =
      assemble (literals (insertCodes solutionID) "%s".toList "%s".toList) ")".toList := by
  simp only [SqlCall.template, List.map_cons, List.map_nil, placeholder]
  rw [text_insert solutionID _ "%s".toList, cString_placeholder]

/-- Code without quotes, which no literal in front of it swallows. The templates of the source have
it between their placeholders. -/
def CodesOk (codes : List (Text × Char)) : Prop :=
  ∀ c ∈ codes, c.1 ≠ [] ∧ (∀ ch ∈ c.1, isQuote ch = false) ∧ isQuote c.2 = true

/-- The code of the first statement has no quotes but those of its literals. -/
theorem codesOk_solved (accept : Int) : CodesOk (solvedCodes accept) := by
  intro c hc
  simp only [solvedCodes, List.mem_cons, List.not_mem_nil, or_false] at hc
  rcases hc with rfl | rfl
  · exact ⟨by decide, forall_not_isQuote (by decide), rfl⟩
  · exact ⟨by simp, isQuote_of_mem_number (forall_not_isQuote (by decide))
      (forall_not_isQuote (by decide)) accept, rfl⟩

/-- Nor has that of the second one. -/
theorem codesOk_submit : CodesOk submitCodes := by
  intro c hc
  simp only [submitCodes, List.mem_cons, List.not_mem_nil, or_false] at hc
  rcases hc with rfl | rfl <;> exact ⟨by decide, forall_not_isQuote (by decide), rfl⟩

/-- Nor that of the third one, whatever the number in it is. -/
theorem codesOk_insert (solutionID : Int) : CodesOk (insertCodes solutionID) := by
  intro c hc
  simp only [insertCodes, List.mem_cons, List.not_mem_nil, or_false] at hc
  subst hc
  exact ⟨by simp, isQuote_of_mem_number (forall_not_isQuote (by decide))
    (forall_not_isQuote (by decide)) solutionID, rfl⟩

/-- The tokens that are meant do not depend on the bodies. -/
theorem tokens_eq (codes : List (Text × Char)) (body body' value last : Text) :
    tokens (codes.map fun c => ⟨c.1, c.2, body, value⟩) last =
      tokens (codes.map fun c => ⟨c.1, c.2, body', value⟩) last := by
  induction codes with
  | nil => rfl
  | cons c codes ih => simp only [List.map_cons, tokens, ih]

section Statement

variable {codes : List (Text × Char)} {last : Text}

/-- So its literals can be read one by one. -/
theorem segment_ok (hcodes : CodesOk codes) (body value : Text) :
    ∀ seg ∈ literals codes body value, seg.Ok := by
  intro seg hseg
  obtain ⟨c, hc, rfl⟩ := List.mem_map.mp hseg
  obtain ⟨hne, hcode, hquote⟩ := hcodes c hc
  exact ⟨hne, hcode, hquote⟩

/-- Bodies that are read as their value give the tokens of the template. -/
theorem lex_literals (hcodes : CodesOk codes) (hlast : ∀ ch ∈ last, isQuote ch = false)
    {body value : Text}
    (h : ∀ quote, isQuote quote = true → unquote quote body = some value) :
    lex (assemble (literals codes body value) last) =
      some (tokens (literals codes body value) last) := by
  refine lex_assemble (segment_ok hcodes body value) hlast fun seg hseg => ?_
  obtain ⟨c, hc, rfl⟩ := List.mem_map.mp hseg
  exact h c.2 (hcodes c hc).2.2

/-- A statement keeps its structure when it has the tokens that are meant. A value without an
unescaped quote gives these tokens; one with such a quote ends its literal early, and the server
reads others. -/
theorem keeps_iff {call : SqlCall} {body : Text} (hcodes : CodesOk codes)
    (hlast : ∀ ch ∈ last, isQuote ch = false)
    (htext : ∀ value, call.text = assemble (literals codes body value) last)
    (htemplate : call.template = assemble (literals codes "%s".toList "%s".toList) last)
    (value : Text) :
    call.Keeps (codes.map fun _ => value) ↔
      lex (assemble (literals codes body value) last) =
        some (tokens (literals codes body value) last) := by
  have hplaceholder : ∀ quote, isQuote quote = true →
      unquote quote "%s".toList = some "%s".toList := by
    intro quote hquote
    have hor : quote = '\'' ∨ quote = '"' := by simpa [isQuote] using hquote
    rcases hor with rfl | rfl <;> decide
  have hlex := lex_literals hcodes hlast hplaceholder
  -- the literals of the template, filled with the value
  have hfill : fill (tokens (literals codes "%s".toList "%s".toList) last)
      (codes.map fun _ => value) = tokens (literals codes body value) last := by
    have hmap := fill_tokens (literals codes "%s".toList "%s".toList) last fun _ => value
    simp only [literals, List.map_map, Function.comp_def] at hmap ⊢
    rw [hmap]
    exact tokens_eq codes "%s".toList body value last
  unfold SqlCall.Keeps
  rw [htemplate, hlex, htext value]
  constructor
  · rintro ⟨ts, hts, htokens⟩
    cases hts
    rw [htokens, hfill]
  · intro htokens
    exact ⟨_, rfl, by rw [htokens, hfill]⟩

end Statement

/-! ### The statements of a task -/

/-- A plain name between single quotes is read as it is. -/
theorem lex_of_plain {codes : List (Text × Char)} (hcodes : CodesOk codes)
    (hsingle : ∀ c ∈ codes, c.2 = '\'') {name : Text} (hplain : Plain '\'' name) :
    lex (assemble (literals codes name name) []) = some (tokens (literals codes name name) []) := by
  refine lex_assemble (segment_ok hcodes name name) (fun _ hch => absurd hch List.not_mem_nil)
    fun seg hseg => ?_
  obtain ⟨c, hc, rfl⟩ := List.mem_map.mp hseg
  show unquote c.2 name = some name
  rw [hsingle c hc]
  exact unquote_of_plain rfl hplain

/-- A name between single quotes: it has to be plain. -/
theorem keeps_name_iff {call : SqlCall} {codes : List (Text × Char)} (hcodes : CodesOk codes)
    (hsingle : ∀ c ∈ codes, c.2 = '\'') (hne : codes ≠ []) {name : Text}
    (htext : ∀ value, call.text = assemble (literals codes name value) [])
    (htemplate : call.template = assemble (literals codes "%s".toList "%s".toList) []) :
    call.Keeps (codes.map fun _ => name) ↔ Plain '\'' name := by
  rw [keeps_iff hcodes (fun _ hch => absurd hch List.not_mem_nil) htext htemplate]
  constructor
  · intro hlex
    have hplain := plain_of_lex_assemble (segment_ok hcodes name name) (fun seg hseg => by
      obtain ⟨c, -, rfl⟩ := List.mem_map.mp hseg
      exact Nat.le_refl _) hlex
    obtain ⟨c, hc⟩ := List.exists_mem_of_ne_nil codes hne
    obtain ⟨hquote, -⟩ := hplain _ (List.mem_map.mpr ⟨c, hc, rfl⟩)
    rwa [hsingle c hc] at hquote
  · exact lex_of_plain hcodes hsingle

section User

variable (page : CodePage) (config : Config) (task : TaskBase)

/-- The statement that counts the solved problems keeps a plain name. -/
theorem userSolvedCall_keeps_iff :
    (userSolvedCall page config task).Keeps
        [wcharToChar page task.userName, wcharToChar page task.userName] ↔
      Plain '\'' (wcharToChar page task.userName) :=
  keeps_name_iff (codesOk_solved config.JE_ACCEPT) (by simp [solvedCodes]) (by simp [solvedCodes])
    (fun value => by
      rw [userSolvedCall, SqlCall.text, text_solved config.JE_ACCEPT _ value, cString_wcharToChar])
    (template_solved config.JE_ACCEPT _)

/-- The statement that counts the submissions does the same. -/
theorem userSubmitCall_keeps_iff :
    (userSubmitCall page task).Keeps
        [wcharToChar page task.userName, wcharToChar page task.userName] ↔
      Plain '\'' (wcharToChar page task.userName) :=
  keeps_name_iff codesOk_submit (by simp [submitCodes]) (by simp [submitCodes])
    (fun value => by
      rw [userSubmitCall, SqlCall.text, text_submit _ value, cString_wcharToChar])
    (template_submit _)

/-- The two statements about the user. -/
theorem updateUser_keeps_iff :
    (∀ call ∈ updateUser page config task, call.KeepsText page task.userName) ↔
      Plain '\'' (wcharToChar page task.userName) ∧ Survives page task.userName := by
  have hsolved := userSolvedCall_keeps_iff page config task
  have hsubmit := userSubmitCall_keeps_iff page task
  constructor
  · intro h
    obtain ⟨hkeeps, hsurvives⟩ := h _ (List.mem_cons_self ..)
    exact ⟨hsolved.mp hkeeps, hsurvives (show 0 < 2 by omega)⟩
  · rintro ⟨hplain, hsurvives⟩ call hcall
    simp only [updateUser, List.mem_cons, List.not_mem_nil, or_false] at hcall
    rcases hcall with rfl | rfl
    · exact ⟨hsolved.mpr hplain, fun _ => hsurvives⟩
    · exact ⟨hsubmit.mpr hplain, fun _ => hsurvives⟩

end User

/-- A statement without texts is its own template. -/
theorem delete_keepsText (page : CodePage) (solutionID : Int) (text : Text) :
    SqlCall.KeepsText page ⟨sqlDeleteCompile, [.int solutionID]⟩ text := by
  have htext : SqlCall.text ⟨sqlDeleteCompile, [.int solutionID]⟩ =
      "DELETE FROM `compileinfo` WHERE `solution_id`=".toList ++ (formatInt solutionID ++ []) := rfl
  have hnoQuote : ∀ ch ∈ SqlCall.text ⟨sqlDeleteCompile, [.int solutionID]⟩,
      isQuote ch = false := by
    rw [htext]
    exact isQuote_of_mem_number (forall_not_isQuote (by decide)) (forall_not_isQuote (by decide)) _
  have hlex := lex_code_only hnoQuote
  exact ⟨⟨_, hlex, by rw [hlex, fill_code_only]⟩, fun h => absurd h (Nat.lt_irrefl 0)⟩

/-- The statement with the compile error. Whatever the error is, escaping keeps its bytes. -/
theorem insert_keepsText_iff (page : CodePage) {escape : Text → Text} (hescape : RealEscape escape)
    (solutionID : Int) (errorStr : Text) :
    SqlCall.KeepsText page ⟨sqlInsertCompile, [.int solutionID,
        .string (ZMySql.escapeString escape (wcharToChar page errorStr))]⟩ errorStr ↔
      Survives page errorStr := by
  have hbody : cString (ZMySql.escapeString escape (wcharToChar page errorStr)) =
      escape (wcharToChar page errorStr) := by
    show cString (cString (escape _)) = _
    rw [cString_cString, cString_eq_self (hescape.noNul _)]
  have hlast : ∀ ch ∈ ")".toList, isQuote ch = false :=
    forall_not_isQuote (by decide)
  have hkeeps : SqlCall.Keeps ⟨sqlInsertCompile, [.int solutionID,
      .string (ZMySql.escapeString escape (wcharToChar page errorStr))]⟩
        [wcharToChar page errorStr] :=
    (keeps_iff (codesOk_insert solutionID) hlast
      (fun value => by rw [SqlCall.text, text_insert solutionID _ value, hbody])
      (template_insert solutionID _) _).mpr (lex_literals (codesOk_insert solutionID) hlast
        fun quote hquote => hescape.unquote quote hquote _)
  exact ⟨fun h => h.2 (show 0 < 1 by omega), fun h => ⟨hkeeps, fun _ => h⟩⟩

/-- The statements of a task have the structure of their templates, with the user name and the
compile error as their literals, exactly when both texts survive the conversion to bytes, and the
bytes of the user name are plain: there is no single quote among them, and each backslash stands in
front of a `%` or a `_`. -/
theorem statements_keep_iff (page : CodePage) {escape : Text → Text} (hescape : RealEscape escape)
    (config : Config) (task : TaskBase) :
    ((∀ call ∈ updateUser page config task, call.KeepsText page task.userName) ∧
        ∀ call ∈ updateInfo page escape config task,
          call.KeepsText page task.compileErrorStr) ↔
      (Plain '\'' (wcharToChar page task.userName) ∧ Survives page task.userName) ∧
        (task.result = config.JE_COMPLIE → Survives page task.compileErrorStr) := by
  -- the two updates depend on the name only
  refine and_congr (updateUser_keeps_iff page config task) ?_
  have hinsert := insert_keepsText_iff page hescape task.solutionID task.compileErrorStr
  constructor
  -- a compile error adds the insert, whose text must survive
  · intro h hresult
    refine hinsert.mp (h _ ?_)
    rw [updateInfo, if_pos hresult]
    exact List.mem_cons_of_mem _ (List.mem_cons_self ..)
  · intro h call hcall
    -- and nothing else: the delete has no text
    unfold updateInfo at hcall
    rcases List.mem_cons.mp hcall with rfl | hcall
    · exact delete_keepsText page task.solutionID task.compileErrorStr
    · split at hcall
      · rename_i hresult
        rw [List.mem_singleton.mp hcall]
        exact hinsert.mpr (h hresult)
      · exact absurd hcall List.not_mem_nil

/-- A task of this user, with this compile error. -/
def taskOf (userName compileErrorStr : Text) : TaskBase :=
  { userName, solutionID := 1, problemID := 1, limitCompileTime := 10000, limitTime := 1,
    limitMemory := 1, language := 0, result := 5, compileErrorStr }

/-- Quotes and backslashes in the compile error do no harm. -/
theorem statements_keep_quoted_error :
    (∀ call ∈ updateUser latin1 {} (taskOf "bob".toList "expected \"'\\\"".toList),
        call.KeepsText latin1 "bob".toList) ∧
      ∀ call ∈ updateInfo latin1 escapeText {} (taskOf "bob".toList "expected \"'\\\"".toList),
        call.KeepsText latin1 "expected \"'\\\"".toList := by
  refine (statements_keep_iff latin1 realEscape_escapeText {}
    (taskOf "bob".toList "expected \"'\\\"".toList)).mpr ⟨⟨?_, by decide⟩, fun _ => by decide⟩
  exact ⟨by decide, by decide, by decide, by decide, by decide, by decide, trivial⟩

/-- A user name with quotes in it changes the condition of the statement. The name `' OR '1'='1`
ends the literal and adds a comparison that holds for every row. -/
theorem updateUser_not_keeps_quoted_name :
    ¬∀ call ∈ updateUser latin1 {} (taskOf "' OR '1'='1".toList []),
      call.KeepsText latin1 "' OR '1'='1".toList := by
  intro h
  exact ((updateUser_keeps_iff latin1 {} (taskOf "' OR '1'='1".toList [])).mp h).1.1 rfl

end DBManager

end OnlineJudger
