import Mathlib.Algebra.Group.Nat.Defs
import Mathlib.Data.Nat.Notation
import Mathlib.Data.List.Induction

/-!
# `OnlineJudger.Lib.SqlText`: string literals in the text of a statement

The rules of MySQL for string literals. A literal stands between two quotes of one kind, `'` or
`"`. Inside, a backslash and the character behind it are one character, and so are two quotes of
the kind that encloses the literal. `lex` reads a statement as its literals and the characters
between them. Comments and quoted identifiers count as characters here.

* `lex_assemble`: bodies that `unquote` reads are the literals of the statement, whatever
  stands between them.
* `plain_of_lex_assemble`: only a `Plain` body stands for itself. A token is not longer than the
  text that it is read from (`lexFrom_weight_le`), so a body that changes the tokens leaves a
  text that is too short for them.
-/

set_option autoImplicit false

namespace OnlineJudger.Lib

/-- A literal with the string that it stands for, or a character outside of the literals. -/
inductive SqlToken where
  | code (ch : Char)
  | literal (value : List Char)
  deriving DecidableEq, Repr

namespace Sql

/-- A single or a double quote. -/
def isQuote (ch : Char) : Bool := ch == '\'' || ch == '"'

/-- The string behind a backslash. The two pattern characters keep their backslash. -/
def unescape (ch : Char) : List Char :=
  if ch = '0' then ['\x00']
  else if ch = 'b' then ['\x08']
  else if ch = 'n' then ['\n']
  else if ch = 'r' then ['\r']
  else if ch = 't' then ['\t']
  else if ch = 'Z' then ['\x1a']
  else if ch = '%' ∨ ch = '_' then ['\\', ch]
  else [ch]

/-- The tokens of a text. `some (quote, value)` stands inside a literal, behind `value`. A text
that ends inside a literal has no tokens. -/
def lexFrom : Option (Char × List Char) → List Char → Option (List SqlToken)
  | none, [] => some []
  | none, ch :: rest =>
    if isQuote ch then lexFrom (some (ch, [])) rest
    else (lexFrom none rest).map (.code ch :: ·)
  | some _, [] => none
  | some (quote, value), [ch] =>
    if ch = quote then some [.literal value] else none
  | some (quote, value), ch :: next :: rest =>
    if ch = '\\' then lexFrom (some (quote, value ++ unescape next)) rest
    else if ch = quote then
      if next = quote then lexFrom (some (quote, value ++ [quote])) rest
      else (lexFrom none (next :: rest)).map (.literal value :: ·)
    else lexFrom (some (quote, value ++ [ch])) (next :: rest)

/-- The tokens of a statement. -/
def lex (text : List Char) : Option (List SqlToken) := lexFrom none text

/-- The string that the body of a literal stands for. `none` when the body ends the literal, or
takes the closing quote with it. -/
def unquote (quote : Char) : List Char → Option (List Char)
  | [] => some []
  | [ch] => if ch = '\\' ∨ ch = quote then none else some [ch]
  | ch :: next :: rest =>
    if ch = '\\' then (unquote quote rest).map (unescape next ++ ·)
    else if ch = quote then
      if next = quote then (unquote quote rest).map (quote :: ·) else none
    else (unquote quote (next :: rest)).map (ch :: ·)

/-- The body stands for itself: it has no quote of the kind, and each backslash of it stands in
front of a pattern character. -/
def Plain (quote : Char) : List Char → Prop
  | [] => True
  | ch :: rest =>
    ch ≠ quote ∧ (ch = '\\' → rest.head? = some '%' ∨ rest.head? = some '_') ∧ Plain quote rest

/-- Whether a body is plain is read off character by character. -/
instance decidablePlain (quote : Char) : (body : List Char) → Decidable (Plain quote body)
  | [] => isTrue trivial
  | ch :: rest =>
    have := decidablePlain quote rest
    inferInstanceAs (Decidable (ch ≠ quote ∧
      (ch = '\\' → rest.head? = some '%' ∨ rest.head? = some '_') ∧ Plain quote rest))

/-- The literals are filled with these values, in order. -/
def fill : List SqlToken → List (List Char) → List SqlToken
  | .literal _ :: ts, value :: values => .literal value :: fill ts values
  | t :: ts, values => t :: fill ts values
  | [], _ => []

/-! ### One literal -/

/-- A quote is neither the backslash nor a pattern character. -/
theorem isQuote_ne {quote : Char} (h : isQuote quote = true) :
    quote ≠ '\\' ∧ quote ≠ '%' ∧ quote ≠ '_' := by
  have hor : quote = '\'' ∨ quote = '"' := by simpa [isQuote] using h
  rcases hor with rfl | rfl <;> decide

/-- The closing quote, when no second one follows. -/
theorem lexFrom_close {quote : Char} (hquote : quote ≠ '\\') (value : List Char)
    {left : List Char} (hleft : left.head? ≠ some quote) :
    lexFrom (some (quote, value)) (quote :: left) =
      (lexFrom none left).map (.literal value :: ·) := by
  cases left with
  | nil => simp [lexFrom]
  | cons ch left =>
    have hch : ch ≠ quote := by simpa using hleft
    simp only [lexFrom, if_neg hquote, if_true, if_neg hch]

/-- A character of the body that is no quote and no backslash. -/
theorem lexFrom_char {quote ch : Char} (hch : ch ≠ quote) (hback : ch ≠ '\\')
    (value : List Char) {rest : List Char} (hrest : rest ≠ []) :
    lexFrom (some (quote, value)) (ch :: rest) =
      lexFrom (some (quote, value ++ [ch])) rest := by
  cases rest with
  | nil => exact absurd rfl hrest
  | cons next rest => simp only [lexFrom, if_neg hback, if_neg hch]

/-- A body that `unquote` reads is one literal. By induction along the reading of the body: one
character, or two that stand for one. -/
theorem lexFrom_unquote {quote : Char} (hquote : quote ≠ '\\') {body value : List Char}
    (h : unquote quote body = some value) (acc : List Char) {left : List Char}
    (hleft : left.head? ≠ some quote) :
    lexFrom (some (quote, acc)) (body ++ quote :: left) =
      (lexFrom none left).map (.literal (acc ++ value) :: ·) := by
  -- on the recursion of `unquote`, one character or one pair at a time
  fun_induction unquote quote body generalizing value acc with
  | case1 =>
    cases h
    rw [List.nil_append, List.append_nil, lexFrom_close hquote acc hleft]
  | case2 ch hch => cases h
  | case3 ch hch =>
    cases h
    rw [not_or] at hch
    rw [List.singleton_append, lexFrom_char hch.2 hch.1 acc (List.cons_ne_nil quote left),
      lexFrom_close hquote _ hleft]
  -- a backslash pair
  | case4 next rest ih =>
    obtain ⟨tail, htail, rfl⟩ := Option.map_eq_some_iff.mp h
    rw [List.cons_append, List.cons_append, lexFrom, if_pos rfl, ih htail, List.append_assoc]
  -- a doubled quotation mark
  | case5 rest hback ih =>
    obtain ⟨tail, htail, rfl⟩ := Option.map_eq_some_iff.mp h
    rw [List.cons_append, List.cons_append, lexFrom, if_neg hback, if_pos rfl, if_pos rfl,
      ih htail, List.append_assoc]
    rfl
  | case6 next rest hback hne => cases h
  -- a character that stands for itself
  | case7 ch next rest hback hch ih =>
    obtain ⟨tail, htail, rfl⟩ := Option.map_eq_some_iff.mp h
    rw [List.cons_append, lexFrom_char hch hback acc (by simp), ih htail, List.append_assoc]
    rfl

/-- A plain body stands for itself: it ends no literal, and its backslashes are kept. The cases are
those of `unquote`, and `Plain` excludes all but the two pairs of a pattern and the ordinary
characters. -/
theorem unquote_of_plain {quote : Char} (hquote : isQuote quote = true) {body : List Char}
    (h : Plain quote body) : unquote quote body = some body := by
  fun_induction unquote quote body with
  | case1 => rfl
  | case2 ch hch =>
    obtain ⟨hne, hback, -⟩ := h
    rcases hch with rfl | rfl
    · simp at hback
    · exact absurd rfl hne
  | case3 ch hch => rfl
  | case4 next rest ih =>
    obtain ⟨-, hback, -, -, hrest⟩ := h
    -- only the two pairs of a pattern stay as they are
    have hnext : next = '%' ∨ next = '_' := by simpa using hback
    have hunescape : unescape next = ['\\', next] := by
      rcases hnext with rfl | rfl <;> rfl
    rw [ih hrest, hunescape]
    rfl
  | case5 rest hback ih => exact absurd rfl h.1
  | case6 next rest hback hne => exact absurd rfl h.1
  | case7 ch next rest hback hch ih =>
    rw [ih h.2.2]
    rfl

/-! ### The length of the tokens -/

/-- The least number of characters that a token is read from. -/
def weight : SqlToken → ℕ
  | .code _ => 1
  | .literal value => value.length + 2

/-- The least number of characters that these tokens are read from. -/
def total : List SqlToken → ℕ
  | [] => 0
  | t :: ts => weight t + total ts

/-- The first token, and the others. -/
theorem total_cons (t : SqlToken) (ts : List SqlToken) : total (t :: ts) = weight t + total ts :=
  rfl

/-- The opening quote and the value that are read already. -/
def pending : Option (Char × List Char) → ℕ
  | none => 0
  | some (_, value) => value.length + 1

/-- A backslash and the character behind it stand for two characters at most. -/
theorem length_unescape_le (ch : Char) : (unescape ch).length ≤ 2 := by
  unfold unescape
  split_ifs <;> exact Nat.le_of_ble_eq_true rfl

/-- Only the pattern characters keep their backslash. -/
theorem unescape_of_length {ch : Char} (h : (unescape ch).length = 2) :
    (ch = '%' ∨ ch = '_') ∧ unescape ch = ['\\', ch] := by
  unfold unescape at h ⊢
  split_ifs at h ⊢ with h0 hb hn hr ht hz hp
  all_goals first | exact ⟨hp, rfl⟩ | cases h

/-- No token is longer than the text that it is read from, since an escape never makes the text
longer. By induction along the reading. -/
theorem lexFrom_weight_le (st : Option (Char × List Char)) (text : List Char)
    (ts : List SqlToken) (h : lexFrom st text = some ts) :
    total ts ≤ text.length + pending st := by
  -- on the recursion of the lexer: each token is paid for by the characters that it takes
  fun_induction lexFrom st text generalizing ts with
  | case1 =>
    cases h
    exact Nat.le_refl 0
  -- a quotation mark opens a literal, which is pending from here on
  | case2 ch rest hquote ih =>
    have hle := ih ts h
    simp only [pending, List.length_nil, List.length_cons] at hle ⊢
    omega
  -- a character outside of literals is a token of its own
  | case3 ch rest hquote ih =>
    obtain ⟨tail, htail, rfl⟩ := Option.map_eq_some_iff.mp h
    have hle := ih tail htail
    simp only [total_cons, weight, pending, List.length_cons] at hle ⊢
    omega
  | case4 => cases h
  | case5 value quote =>
    cases h
    -- the text ends with the literal closed
    simp only [total, weight, pending, List.length_cons, List.length_nil]
    omega
  | case6 quote value ch hne => cases h
  -- a pair adds two characters at most
  | case7 quote value next rest ih =>
    have hle := ih ts h
    have hunescape := length_unescape_le next
    simp only [pending, List.length_append, List.length_cons] at hle ⊢
    omega
  -- a doubled quotation mark adds one
  | case8 value quote rest hback ih =>
    have hle := ih ts h
    simp only [pending, List.length_append, List.length_cons, List.length_nil] at hle ⊢
    omega
  -- the literal is closed and pays for itself
  | case9 value quote next rest hback hnext ih =>
    obtain ⟨tail, htail, rfl⟩ := Option.map_eq_some_iff.mp h
    have hle := ih tail htail
    simp only [total_cons, weight, pending, List.length_cons] at hle ⊢
    omega
  | case10 quote value ch next rest hback hch ih =>
    have hle := ih ts h
    simp only [pending, List.length_append, List.length_cons, List.length_nil] at hle ⊢
    omega

/-- Tokens that use up the whole text: the literal ends where its body is plain, because any other
character of a body costs more text than it gives to the value. -/
theorem plain_of_total {quote : Char} (hquote : isQuote quote = true) (acc text : List Char)
    (ts : List SqlToken) (h : lexFrom (some (quote, acc)) text = some ts)
    (htotal : total ts = text.length + acc.length + 1) :
    ∃ body left ts', text = body ++ quote :: left ∧ Plain quote body ∧
      ts = .literal (acc ++ body) :: ts' ∧ lexFrom none left = some ts' := by
  obtain ⟨hqback, hqpercent, hqscore⟩ := isQuote_ne hquote
  -- on the text: each step but the closing quote keeps what it reads
  induction text using List.twoStepInduction generalizing acc ts with
  | nil => cases h
  | singleton ch =>
    rw [lexFrom] at h
    split at h
    · rename_i hch
      cases h
      exact ⟨[], [], [], by rw [hch]; rfl, trivial, by rw [List.append_nil], rfl⟩
    · cases h
  | cons_cons ch next rest ih ih' =>
    simp only [List.length_cons] at htotal ih'
    rw [lexFrom] at h
    split at h
    · -- an escape: only the pattern characters keep their backslash
      rename_i hback
      have hle := lexFrom_weight_le _ rest ts h
      have hunescape := length_unescape_le next
      simp only [pending, List.length_append] at hle
      have hlength : (unescape next).length = 2 := by omega
      obtain ⟨hpattern, hkept⟩ := unescape_of_length hlength
      obtain ⟨body, left, ts', rfl, hplain, rfl, hleft⟩ := ih _ _ h (by
        rw [htotal, List.length_append, hkept]
        simp only [List.length_cons, List.length_nil]
        omega)
      refine ⟨'\\' :: next :: body, left, ts', by rw [hback]; rfl, ?_, ?_, hleft⟩
      · refine ⟨Ne.symm hqback, fun _ => by simpa using hpattern, ?_, ?_, hplain⟩
        · rcases hpattern with rfl | rfl
          · exact Ne.symm hqpercent
          · exact Ne.symm hqscore
        · rcases hpattern with rfl | rfl <;> intro hne <;> cases hne
      · rw [hkept, List.append_assoc]
        rfl
    · split at h
      · split at h
        · -- two quotes are read as one
          have hle := lexFrom_weight_le _ rest ts h
          simp only [pending, List.length_append, List.length_cons, List.length_nil] at hle
          omega
        · rename_i hback hch hnext
          obtain ⟨tail, htail, rfl⟩ := Option.map_eq_some_iff.mp h
          exact ⟨[], next :: rest, tail, by rw [hch]; rfl, trivial, by rw [List.append_nil], htail⟩
      · rename_i hback hch
        obtain ⟨body, left, ts', hbody, hplain, rfl, hleft⟩ := ih' next _ _ h (by
          rw [htotal, List.length_append]
          simp only [List.length_cons, List.length_nil]
          omega)
        refine ⟨ch :: body, left, ts', by rw [hbody]; rfl, ?_, ?_, hleft⟩
        · exact ⟨hch, fun hne => absurd hne hback, hplain⟩
        · rw [List.append_assoc]
          rfl

/-! ### A statement with its literals -/

/-- A literal of a statement: the code in front of it, its quote, its body, and the value that the
body is meant to stand for. -/
structure Segment where
  code : List Char
  quote : Char
  body : List Char
  value : List Char

/-- Code in front of a literal, which the literal in front of it does not swallow. -/
structure Segment.Ok (seg : Segment) : Prop where
  code_ne_nil : seg.code ≠ []
  code : ∀ ch ∈ seg.code, isQuote ch = false
  quote : isQuote seg.quote = true

/-- The text of a statement. `last` is the code behind the last literal. -/
def assemble : List Segment → List Char → List Char
  | [], last => last
  | seg :: segs, last =>
    seg.code ++ seg.quote :: (seg.body ++ seg.quote :: assemble segs last)

/-- The tokens that the statement is meant to have. -/
def tokens : List Segment → List Char → List SqlToken
  | [], last => last.map .code
  | seg :: segs, last => seg.code.map .code ++ .literal seg.value :: tokens segs last

/-- Code is not filled. -/
theorem fill_code (code : List Char) (ts : List SqlToken) (values : List (List Char)) :
    fill (code.map .code ++ ts) values = code.map .code ++ fill ts values := by
  induction code with
  | nil => rfl
  | cons ch code ih =>
    rw [List.map_cons, List.cons_append, fill, ih]
    · rfl
    · intro _ _ _ _ hcode
      cases hcode

/-- A statement without literals takes no value. -/
theorem fill_code_only (code : List Char) (values : List (List Char)) :
    fill (code.map .code) values = code.map .code := by
  have hcode := fill_code code [] values
  rw [List.append_nil, fill, List.append_nil] at hcode
  exact hcode

/-- Filling the literals gives the tokens for the new values. -/
theorem fill_tokens (segs : List Segment) (last : List Char) (f : Segment → List Char) :
    fill (tokens segs last) (segs.map f) =
      tokens (segs.map fun seg => { seg with value := f seg }) last := by
  induction segs with
  | nil => exact fill_code_only last []
  | cons seg segs ih =>
    rw [tokens, List.map_cons, fill_code, fill, ih]
    rfl

/-- Code without quotes is read character by character. -/
theorem lex_code {code : List Char} (h : ∀ ch ∈ code, isQuote ch = false) (rest : List Char) :
    lex (code ++ rest) = (lex rest).map (code.map .code ++ ·) := by
  induction code with
  | nil =>
    rw [List.nil_append]
    cases lex rest <;> rfl
  | cons ch code ih =>
    have hch := h ch (List.mem_cons_self ..)
    have ih := ih fun c hc => h c (List.mem_cons_of_mem _ hc)
    rw [lex] at ih ⊢
    rw [List.cons_append, lexFrom, hch, if_neg Bool.false_ne_true, ih]
    cases lex rest <;> rfl

/-- A statement without literals. -/
theorem lex_code_only {code : List Char} (h : ∀ ch ∈ code, isQuote ch = false) :
    lex code = some (code.map .code) := by
  have hcode := lex_code h []
  rw [List.append_nil, show lex [] = some [] from rfl, Option.map_some, List.append_nil] at hcode
  exact hcode

/-- Code in front of a quote. -/
theorem lex_code_quote {code : List Char} (h : ∀ ch ∈ code, isQuote ch = false) {quote : Char}
    (hquote : isQuote quote = true) (rest : List Char) :
    lex (code ++ quote :: rest) = (lexFrom (some (quote, [])) rest).map (code.map .code ++ ·) := by
  rw [lex_code h, lex, lexFrom, if_pos hquote]

/-- Two sequences of tokens one behind the other. -/
theorem total_append (ts ts' : List SqlToken) : total (ts ++ ts') = total ts + total ts' := by
  induction ts with
  | nil => rw [List.nil_append, total, Nat.zero_add]
  | cons t ts ih => rw [List.cons_append, total_cons, total_cons, ih, Nat.add_assoc]

/-- Each character of code is one token. -/
theorem total_code (code : List Char) : total (code.map .code) = code.length := by
  induction code with
  | nil => rfl
  | cons ch code ih =>
    rw [List.map_cons, total_cons, ih, weight, List.length_cons]
    omega

/-- A statement does not start with a quote. -/
theorem head_assemble_ne {segs : List Segment} {last : List Char} (hsegs : ∀ seg ∈ segs, seg.Ok)
    (hlast : ∀ ch ∈ last, isQuote ch = false) {quote : Char} (hquote : isQuote quote = true) :
    (assemble segs last).head? ≠ some quote := by
  have hnot : ∀ code : List Char, (∀ ch ∈ code, isQuote ch = false) → code.head? ≠ some quote := by
    intro code hcode hhead
    have hfalse := hcode quote (List.mem_of_mem_head? hhead)
    rw [hquote] at hfalse
    cases hfalse
  cases segs with
  | nil => exact hnot last hlast
  | cons seg segs =>
    obtain ⟨hne, hcode, -⟩ := hsegs seg (List.mem_cons_self ..)
    obtain ⟨ch, code, hcons⟩ := List.exists_cons_of_ne_nil hne
    have hhead := hnot seg.code hcode
    rw [assemble, hcons]
    rw [hcons] at hhead
    exact hhead

/-- Bodies that stand for their values give the tokens that are meant. -/
theorem lex_assemble {segs : List Segment} {last : List Char} (hsegs : ∀ seg ∈ segs, seg.Ok)
    (hlast : ∀ ch ∈ last, isQuote ch = false)
    (hbody : ∀ seg ∈ segs, unquote seg.quote seg.body = some seg.value) :
    lex (assemble segs last) = some (tokens segs last) := by
  induction segs with
  | nil => exact lex_code_only hlast
  | cons seg segs ih =>
    have hrest : ∀ s ∈ segs, s.Ok := fun s hs => hsegs s (List.mem_cons_of_mem _ hs)
    have ih := ih hrest fun s hs => hbody s (List.mem_cons_of_mem _ hs)
    obtain ⟨-, hcode, hquote⟩ := hsegs seg (List.mem_cons_self ..)
    have hunquote := hbody seg (List.mem_cons_self ..)
    rw [lex] at ih
    rw [assemble, tokens, lex_code_quote hcode hquote,
      lexFrom_unquote (isQuote_ne hquote).1 hunquote [] (head_assemble_ne hrest hlast hquote), ih]
    rfl

/-- The tokens that are meant are as long as the statement at least, when no body is longer than
its value. -/
theorem length_assemble_le {segs : List Segment} (last : List Char)
    (hlength : ∀ seg ∈ segs, seg.body.length ≤ seg.value.length) :
    (assemble segs last).length ≤ total (tokens segs last) := by
  induction segs with
  | nil =>
    rw [assemble, tokens]
    exact Nat.le_of_eq (total_code last).symm
  | cons seg segs ih =>
    have ih := ih fun s hs => hlength s (List.mem_cons_of_mem _ hs)
    have hle := hlength seg (List.mem_cons_self ..)
    rw [assemble, tokens, total_append, total_code, total_cons, weight]
    simp only [List.length_append, List.length_cons]
    omega

/-- When the tokens are the ones that are meant, and no body is longer than its value, then each
body is plain and is its value. -/
theorem plain_of_lex_assemble {segs : List Segment} {last : List Char}
    (hsegs : ∀ seg ∈ segs, seg.Ok)
    (hlength : ∀ seg ∈ segs, seg.body.length ≤ seg.value.length)
    (h : lex (assemble segs last) = some (tokens segs last)) :
    ∀ seg ∈ segs, Plain seg.quote seg.body ∧ seg.value = seg.body := by
  induction segs with
  | nil => exact fun _ hseg => absurd hseg List.not_mem_nil
  | cons seg segs ih =>
    have hrest : ∀ s ∈ segs, s.Ok := fun s hs => hsegs s (List.mem_cons_of_mem _ hs)
    have hrestLength : ∀ s ∈ segs, s.body.length ≤ s.value.length :=
      fun s hs => hlength s (List.mem_cons_of_mem _ hs)
    obtain ⟨-, hcode, hquote⟩ := hsegs seg (List.mem_cons_self ..)
    have hle := hlength seg (List.mem_cons_self ..)
    have hrestLe := length_assemble_le last hrestLength
    rw [assemble, tokens, lex_code_quote hcode hquote] at h
    obtain ⟨ts, hts, hcons⟩ := Option.map_eq_some_iff.mp h
    have hts' := List.append_cancel_left hcons
    subst hts'
    have hweight := lexFrom_weight_le _ _ _ hts
    rw [total_cons, weight] at hweight
    simp only [pending, List.length_append, List.length_cons, List.length_nil] at hweight
    obtain ⟨body, left, ts', htext, hplain, hlit, hleft⟩ := plain_of_total hquote [] _ _ hts (by
      rw [total_cons, weight]
      simp only [List.length_append, List.length_cons, List.length_nil]
      omega)
    obtain ⟨hvalue, hts'⟩ := List.cons.inj hlit
    have hvalue : seg.value = body := SqlToken.literal.inj hvalue
    -- the body has the length of its value, so the literal ends where it is meant to
    have hsplit := List.append_inj htext (by rw [← hvalue]; omega)
    obtain ⟨hbody, hmore⟩ := hsplit
    have hmore := (List.cons.inj hmore).2
    intro s hs
    rcases List.mem_cons.mp hs with rfl | hs
    · rw [hbody]
      exact ⟨hplain, hvalue⟩
    · refine ih hrest hrestLength ?_ s hs
      rw [lex, hmore, hleft, hts']

end Sql

end OnlineJudger.Lib
