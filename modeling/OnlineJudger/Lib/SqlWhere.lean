import OnlineJudger.Lib.SqlText

/-!
# `OnlineJudger.Lib.SqlWhere`: conditions on the rows of a table

The conditions of a `WHERE` clause that compare columns and constants with `=`, joined with `AND`
and `OR`. `AND` binds closer. `condition` reads one from the tokens of a statement, and `holds`
evaluates it on a row. The value of a column and of a number is its text.

* `condition_comparison`: a single comparison, in front of a token that joins nothing to it.
* `condition_and`: two comparisons joined with `AND`.
-/

set_option autoImplicit false

namespace OnlineJudger.Lib.Sql

/-- One side of a comparison. -/
inductive Operand where
  | column (name : List Char)
  | constant (value : List Char)
  deriving DecidableEq, Repr

/-- The value on a row, whose columns are given by `row`. -/
def Operand.eval (row : List Char → List Char) : Operand → List Char
  | .column name => row name
  | .constant value => value

/-- The comparisons that are joined with `AND`, for each part that is joined with `OR`. -/
abbrev Condition := List (List (Operand × Operand))

/-- The rows on which a condition holds. -/
def Condition.holds (row : List Char → List Char) (c : Condition) : Bool :=
  c.any fun part => part.all fun p => p.1.eval row == p.2.eval row

/-- Skip this code. -/
def dropCode : List Char → List SqlToken → Option (List SqlToken)
  | [], ts => some ts
  | ch :: text, .code c :: ts => if ch = c then dropCode text ts else none
  | _ :: _, _ => none

/-- The code at the front whose characters have the property, and the tokens behind it. -/
def codeWhile (p : Char → Bool) : List SqlToken → List Char × List SqlToken
  | .code c :: ts =>
    if p c then (c :: (codeWhile p ts).1, (codeWhile p ts).2) else ([], .code c :: ts)
  | ts => ([], ts)

/-- The quote of a column. -/
def backquote : Char := '\x60'

/-- A quoted column, a literal or a number. -/
def operand : List SqlToken → Option (Operand × List SqlToken)
  | .literal value :: ts => some (.constant value, ts)
  | .code c :: ts =>
    if c = backquote then
      let (name, ts) := codeWhile (· != backquote) ts
      (dropCode [backquote] ts).map fun ts => (.column name, ts)
    else
      match codeWhile (fun d => d.isDigit || d == '-') (.code c :: ts) with
      | ([], _) => none
      | (value, ts) => some (.constant value, ts)
  | [] => none

/-- Two operands with an equality sign between them. -/
def comparison (ts : List SqlToken) : Option ((Operand × Operand) × List SqlToken) := do
  let (left, ts) ← operand ts
  let ts ← dropCode ['='] ts
  let (right, ts) ← operand ts
  pure ((left, right), ts)

/-- Comparisons that are joined with `AND`. The fuel is the length of the tokens, as each comparison
takes one of them at least. -/
def conjunction : ℕ → List SqlToken → Option (List (Operand × Operand) × List SqlToken)
  | 0, _ => none
  | fuel + 1, ts => do
    let (c, ts) ← comparison ts
    match dropCode " AND ".toList ts with
    | none => pure ([c], ts)
    | some ts =>
      let (cs, ts) ← conjunction fuel ts
      pure (c :: cs, ts)

/-- Parts that are joined with `OR`, which binds less than `AND`. -/
def disjunction : ℕ → List SqlToken → Option (Condition × List SqlToken)
  | 0, _ => none
  | fuel + 1, ts => do
    let (part, ts) ← conjunction (ts.length + 1) ts
    match dropCode " OR ".toList ts with
    | none => pure ([part], ts)
    | some ts =>
      let (parts, ts) ← disjunction fuel ts
      pure (part :: parts, ts)

/-- The condition at the front. -/
def condition (ts : List SqlToken) : Option (Condition × List SqlToken) :=
  disjunction (ts.length + 1) ts

/-! ### Reading a condition -/

/-- The code that stands in front is skipped. -/
theorem dropCode_append (text : List Char) (ts : List SqlToken) :
    dropCode text (text.map .code ++ ts) = some ts := by
  induction text with
  | nil => rfl
  | cons ch text ih => rw [List.map_cons, List.cons_append, dropCode, if_pos rfl, ih]

/-- The code with the property is read up to the first token that has it not. -/
theorem codeWhile_append {p : Char → Bool} {text : List Char} (h : ∀ ch ∈ text, p ch = true)
    {ts : List SqlToken} (hts : codeWhile p ts = ([], ts)) :
    codeWhile p (text.map .code ++ ts) = (text, ts) := by
  induction text with
  | nil => exact hts
  | cons ch text ih =>
    rw [List.map_cons, List.cons_append, codeWhile, if_pos (h ch (List.mem_cons_self ..)),
      ih fun c hc => h c (List.mem_cons_of_mem _ hc)]

/-- A literal is the constant that it stands for. -/
theorem operand_literal (value : List Char) (ts : List SqlToken) :
    operand (.literal value :: ts) = some (.constant value, ts) := rfl

/-- A quoted column. Its name has no backquote, which would end it. -/
theorem operand_column {name : List Char} (h : backquote ∉ name) (ts : List SqlToken) :
    operand ((backquote :: (name ++ [backquote])).map .code ++ ts) = some (.column name, ts) := by
  have hname : codeWhile (· != backquote) (name.map .code ++ (.code backquote :: ts)) =
      (name, .code backquote :: ts) :=
    codeWhile_append (fun ch hch => bne_iff_ne.mpr (ne_of_mem_of_not_mem hch h)) rfl
  rw [List.map_cons, List.map_append, List.cons_append, List.append_assoc, List.map_singleton,
    List.singleton_append, operand, if_pos rfl, hname]
  rfl

/-- A number, in front of a closing parenthesis. -/
theorem operand_number {digits : List Char} (hne : digits ≠ [])
    (h : ∀ d ∈ digits, (d.isDigit || d == '-') = true) (ts : List SqlToken) :
    operand (digits.map .code ++ .code ')' :: ts) =
      some (.constant digits, .code ')' :: ts) := by
  have hclose : codeWhile (fun ch => ch.isDigit || ch == '-') (.code ')' :: ts) =
      ([], .code ')' :: ts) := rfl
  have hdigits := codeWhile_append h hclose
  obtain ⟨d, digits, rfl⟩ := List.exists_cons_of_ne_nil hne
  have hd : d ≠ backquote := by
    rintro rfl
    have := h _ (List.mem_cons_self ..)
    revert this
    decide
  rw [List.map_cons, List.cons_append] at hdigits ⊢
  rw [operand, if_neg hd, hdigits]

/-- The token in front joins nothing to what has been read. -/
def Closed (ts : List SqlToken) : Prop := ts.head? ≠ some (.code ' ')

/-- No blank stands in front of a token that joins nothing, so neither ` AND ` nor ` OR ` is found
there. -/
theorem dropCode_space {ts : List SqlToken} (h : Closed ts) (text : List Char) :
    dropCode (' ' :: text) ts = none := by
  cases ts with
  | nil => rfl
  | cons t ts =>
    cases t with
    | literal value => rfl
    | code c =>
      have hne : ' ' ≠ c := fun heq => h (by rw [heq]; rfl)
      rw [dropCode, if_neg hne]

/-- A condition that is one comparison. -/
theorem condition_comparison {ts rest : List SqlToken} {c : Operand × Operand}
    (h : comparison ts = some (c, rest)) (hrest : Closed rest) :
    condition ts = some ([[c]], rest) := by
  have hand : dropCode " AND ".toList rest = none := dropCode_space hrest _
  have hor : dropCode " OR ".toList rest = none := dropCode_space hrest _
  simp only [condition, disjunction, conjunction, h, hand, hor, Option.bind_eq_bind,
    Option.bind_some, Option.pure_def]

/-- A condition that is two comparisons joined with `AND`. -/
theorem condition_and {ts ts' rest : List SqlToken} {c c' : Operand × Operand}
    (h : comparison ts = some (c, " AND ".toList.map .code ++ ts'))
    (h' : comparison ts' = some (c', rest)) (hrest : Closed rest) (hlength : 0 < ts.length) :
    condition ts = some ([[c, c']], rest) := by
  have hand : dropCode " AND ".toList rest = none := dropCode_space hrest _
  have hor : dropCode " OR ".toList rest = none := dropCode_space hrest _
  obtain ⟨n, hn⟩ := Nat.exists_eq_succ_of_ne_zero (Nat.ne_of_gt hlength)
  simp only [condition, disjunction, hn, conjunction, h, h', dropCode_append, hand, hor,
    Option.bind_eq_bind, Option.bind_some, Option.pure_def]

end OnlineJudger.Lib.Sql
