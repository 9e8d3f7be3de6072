import OnlineJudger.LZData.Store
import OnlineJudger.Proofs.Acm.ZNet
import OnlineJudger.Proofs.LZData.ReadWrite

/-!
# `OnlineJudger.Proofs.LZData.TypedValues`: numbers and truth values in the tree

`writeInt` and `writeBool` write an empty value first, and set the node that `write` returns. The
tree is then the one that a write of the text gives (`update_write`), so what is known of
`write` holds for them. `atoi_formatInt` reads back what `%d` wrote.

The main result is `typed_writes`.
-/

set_option autoImplicit false

namespace OnlineJudger

open Lib

/-! ### Numbers -/

/-- A number that is not negative is written in its digits. -/
theorem formatInt_ofNat (n : ℕ) : formatInt n = Nat.toDigits 10 n := by
  show (String.ofList (Nat.toDigits 10 n)).toList = _
  rw [String.toList_ofList]

/-- A negative number has a sign in front of its digits. -/
theorem formatInt_negSucc (n : ℕ) : formatInt (Int.negSucc n) = '-' :: Nat.toDigits 10 (n + 1) := by
  show ("-" ++ String.ofList (Nat.toDigits 10 (n + 1))).toList = _
  rw [String.toList_append, String.toList_ofList (l := Nat.toDigits 10 (n + 1))]
  rfl

/-- The digits in base ten are the ten characters. -/
theorem isDigit_of_mem_toDigits {n : ℕ} {c : Char} (h : c ∈ Nat.toDigits 10 n) :
    c.isDigit = true := Nat.isDigit_of_mem_toDigits (by omega) (by omega) h

/-- A number is read back from its digits. -/
theorem leadingNumber_toDigits (n : ℕ) : leadingNumber (Nat.toDigits 10 n) = n := by
  unfold leadingNumber
  rw [List.takeWhile_eq_self_iff.mpr fun _ => isDigit_of_mem_toDigits,
    Nat.ofDigitChars_ten_toDigits]

/-- `atoi` reads back what `%d` wrote. -/
theorem atoi_formatInt (n : Int) : atoi (formatInt n) = n := by
  cases n with
  | ofNat n =>
    have hdigits : formatInt (Int.ofNat n) = Nat.toDigits 10 n := formatInt_ofNat n
    rw [hdigits]
    obtain ⟨c, str, hcons⟩ :=
      List.exists_cons_of_length_pos (Nat.length_toDigits_pos (b := 10) (n := n))
    have hc : c.isDigit = true :=
      isDigit_of_mem_toDigits (n := n) (by rw [hcons]; exact List.mem_cons_self ..)
    rw [hcons, atoi_of_isDigit hc, ← hcons, leadingNumber_toDigits]
    rfl
  | negSucc n =>
    rw [formatInt_negSucc]
    show -(leadingNumber (Nat.toDigits 10 (n + 1)) : Int) = _
    rw [leadingNumber_toDigits]
    rfl

/-- Different numbers have different texts, because `atoi` reads each one back. -/
theorem formatInt_injective {m n : Int} (h : formatInt m = formatInt n) : m = n := by
  rw [← atoi_formatInt m, h, atoi_formatInt n]

/-- A number has a digit at least. -/
theorem formatInt_ne_nil (n : Int) : formatInt n ≠ [] := by
  cases n with
  | ofNat n => exact List.ne_nil_of_length_pos (formatInt_ofNat n ▸ Nat.length_toDigits_pos)
  | negSucc n =>
    rw [formatInt_negSucc]
    exact List.cons_ne_nil _ _

/-- The characters of a number. -/
theorem of_mem_formatInt {n : Int} {c : Char} (h : c ∈ formatInt n) :
    c = '-' ∨ c.isDigit = true := by
  cases n with
  | ofNat n =>
    have hdigits : formatInt (Int.ofNat n) = Nat.toDigits 10 n := formatInt_ofNat n
    rw [hdigits] at h
    exact .inr (isDigit_of_mem_toDigits h)
  | negSucc n =>
    rw [formatInt_negSucc, List.mem_cons] at h
    rcases h with h | h
    · exact .inl h
    · exact .inr (isDigit_of_mem_toDigits h)

/-- What is neither the sign nor a digit is not in a number. -/
theorem notMem_formatInt {n : Int} {c : Char} (hminus : c ≠ '-') (hdigit : c.isDigit = false) :
    c ∉ formatInt n := by
  intro h
  rcases of_mem_formatInt h with h | h
  · exact hminus h
  · rw [hdigit] at h
    exact Bool.noConfusion h

namespace LZData

/-! ### The node that a write returns -/

/-- A child that is set twice is the second one. -/
theorem setChild_setChild (d c c' : LZData) (i : Int) :
    (d.setChild i c).setChild i c' = d.setChild i c' := by
  simp only [setChild, List.set_set]

/-- One step of `update`: the child on the way is replaced by its update. -/
theorem update_cons {d c : LZData} {i : ℕ} (ptr : LZDataPtr) (f : LZData → LZData)
    (h : d.children[i]? = some c) : d.update (i :: ptr) f = d.setChild i (c.update ptr f) := by
  rw [update, h]

/-- The returned node is the one whose value the write set, so setting it again is a write of the
other value. By induction on the segments of the path. -/
theorem update_writeSegs (d : LZData) (p : List Text) (v w : Text) (hp : p ≠ []) :
    (d.writeSegs p v).1.update (d.writeSegs p v).2 (fun node => node.setString w) =
      (d.writeSegs p w).1 := by
  -- on the recursion of `writeSegs`: the node written last is the one that is changed
  fun_induction writeSegs d p v with
  | case1 => exact absurd rfl hp
  -- the node is there
  | case2 d s v k hf =>
    rw [update_cons [] _ (getElem?_setChild_self _ (findTag_lt hf)), setChild_setChild]
    simp only [writeSegs, hf]
    rfl
  -- the node is the child just added
  | case3 d s v hf =>
    have hlast : (d.addChild ⟨s, v, []⟩).children[d.children.length]? = some ⟨s, v, []⟩ := by
      simp [addChild]
    have hwrite : (d.writeSegs [s] w).1 = d.addChild ⟨s, w, []⟩ := by
      unfold writeSegs
      split
      · exact absurd ‹_› (hf _)
      · rfl
    rw [update_cons [] _ hlast, hwrite]
    simp [addChild, setChild, update, setString]
  -- the node is below the child that `enter` leads to
  | case4 d s s' rest v d' i henter child ptr hw ih =>
    obtain ⟨hfind, -, -⟩ := enter_spec d s
    rw [henter] at hfind
    rw [hw] at ih
    rw [update_cons ptr _ (getElem?_setChild_self _ (findTag_lt hfind)), setChild_setChild,
      ih (List.cons_ne_nil _ _), writeSegs, henter]

/-- The same for a path before it is split. -/
theorem update_write (d : LZData) (tag v w : Text) :
    (d.write tag v).1.update (d.write tag v).2 (fun node => node.setString w) =
      d.writeString tag w := by
  rw [writeString, write_eq, write_eq]
  exact update_writeSegs d (segments tag) v w (segments_ne_nil tag)

/-- `writeInt` writes the text of the number. -/
theorem writeInt_eq (d : LZData) (tag : Text) (n : Int) :
    d.writeInt tag n = d.writeString tag (formatInt n) := update_write d tag [] (formatInt n)

/-- `writeBool` writes the text of the truth value. -/
theorem writeBool_eq (d : LZData) (tag : Text) (b : Bool) :
    d.writeBool tag b = d.writeString tag (if b then "true".toList else "false".toList) :=
  update_write d tag [] _

/-! ### Typed writes in a row -/

/-- What one of `writeInt`, `writeBool` and `writeString` writes. -/
inductive TypedValue where
  | int (data : Int)
  | bool (data : Bool)
  | string (data : Text)

/-- The text that stands for the value in the tree. -/
def TypedValue.text : TypedValue → Text
  | .int data => formatInt data
  | .bool data => if data then "true".toList else "false".toList
  | .string data => data

/-- The write of the type. -/
def writeTyped (d : LZData) (tag : Text) : TypedValue → LZData
  | .int data => d.writeInt tag data
  | .bool data => d.writeBool tag data
  | .string data => d.writeString tag data

/-- The tree after a sequence of typed writes. -/
def writesTyped (d : LZData) (ops : List (Text × TypedValue)) : LZData :=
  ops.foldl (fun d op => d.writeTyped op.1 op.2) d

/-- What the reads of a path return, whatever their default: the number as a number, as a text and
as a truth value, and the other two in their own type and as a text. -/
def ReadsAs (d : LZData) (tag : Text) (value : TypedValue) : Prop :=
  (∀ default, d.readString tag default = value.text) ∧
    match value with
    | .int data => (∀ default, d.readInt tag default = data) ∧
        ∀ default, d.readBool tag default = decide (data ≠ 0)
    | .bool data => ∀ default, d.readBool tag default = data
    | .string _ => True

/-- Each typed write is a write of a text. -/
theorem writeTyped_eq (d : LZData) (tag : Text) (value : TypedValue) :
    d.writeTyped tag value = d.writeString tag value.text := by
  cases value with
  | int data => exact writeInt_eq d tag data
  | bool data => exact writeBool_eq d tag data
  | string data => rfl

/-- So is a sequence of them. -/
theorem writesTyped_eq (d : LZData) (ops : List (Text × TypedValue)) :
    d.writesTyped ops = d.writes (ops.map fun op => (op.1, op.2.text)) := by
  induction ops generalizing d with
  | nil => rfl
  | cons op ops ih =>
    show (d.writeTyped op.1 op.2).writesTyped ops = _
    rw [ih, writeTyped_eq]
    rfl

/-- The node behind a value that a read finds. -/
theorem exists_readNode {d : LZData} {tag value : Text} (h : d.readValue tag = some value) :
    ∃ node, d.readNode tag = some node ∧ node.value = value := by
  rw [readValue, Option.bind_eq_some_iff] at h
  obtain ⟨ptr, hread, hvalue⟩ := h
  rw [Option.map_eq_some_iff] at hvalue
  obtain ⟨node, hnode, hvalue⟩ := hvalue
  exact ⟨node, by rw [readNode, hread, Option.bind_some, hnode], hvalue⟩

/-- A number is neither of the two words. So it is read as a number, and it is true if it is not
zero. -/
theorem asInt_of_formatInt {node : LZData} {n : Int} (h : node.value = formatInt n) :
    node.asInt = n ∧ node.asBool = decide (n ≠ 0) := by
  have hint : node.asInt = n := by
    rw [asInt, h, cString_eq_self (notMem_formatInt (by decide) (by decide)), atoi_formatInt]
  have hword : ∀ word : Text, 'e' ∈ word → node.value ≠ word := by
    intro word hmem heq
    refine notMem_formatInt (n := n) (c := 'e') (by decide) (by decide) ?_
    rw [← h, heq]
    exact hmem
  refine ⟨hint, ?_⟩
  rw [asBool, if_neg (hword _ (by decide)), if_neg (hword _ (by decide)), hint]

/-- A value is read back from its text. One case for each type: a number through its decimal form, a
truth value through its name. -/
theorem readsAs_of_readValue {d : LZData} {tag : Text} {value : TypedValue}
    (h : d.readValue tag = some value.text) : d.ReadsAs tag value := by
  obtain ⟨node, hnode, hvalue⟩ := exists_readNode h
  -- the text of the value is stored as it is
  have hstring : ∀ default, d.readString tag default = value.text := by
    intro default
    rw [readString, hnode]
    exact hvalue
  cases value with
  -- a number reads back as number, and as the truth value that it stands for
  | int data =>
    obtain ⟨hint, hbool⟩ := asInt_of_formatInt hvalue
    refine ⟨hstring, ?_, ?_⟩
    · intro default
      rw [readInt, hnode]
      exact hint
    · intro default
      rw [readBool, hnode]
      exact hbool
  -- a truth value is stored as one of the two words
  | bool data =>
    refine ⟨hstring, ?_⟩
    intro default
    rw [readBool, hnode]
    show node.asBool = data
    rw [asBool, hvalue]
    cases data <;> rfl
  | string data => exact ⟨hstring, trivial⟩

/-- The value of the last typed write to a path. -/
def lastTyped (ops : List (Text × TypedValue)) (tag : Text) : Option TypedValue :=
  (ops.reverse.find? (fun op => op.1 == tag)).map (·.2)

/-- The last write of a text to a path is the text of the last typed write. -/
theorem lastWrite_map_text (ops : List (Text × TypedValue)) (tag : Text) :
    lastWrite (ops.map fun op => (op.1, op.2.text)) tag = (lastTyped ops tag).map (·.text) := by
  rw [lastWrite, lastTyped, ← List.map_reverse, List.find?_map, Option.map_map, Option.map_map]
  rfl

/-- After any sequence of typed writes none of which hits a first child, each written path reads
back, in the type of its last write, what that write wrote. A number also reads as its text and as
its truth value. -/
theorem typed_writes (d : LZData) (ops : List (Text × TypedValue))
    (hok : ∀ before op after, ops = before ++ op :: after →
      ¬(d.writesTyped before).HitsFirstChild (segments op.1))
    (tag : Text) (value : TypedValue) (hlast : lastTyped ops tag = some value) :
    (d.writesTyped ops).ReadsAs tag value := by
  refine readsAs_of_readValue ?_
  rw [writesTyped_eq]
  refine readValue_writes d _ ?_ (by rw [lastWrite_map_text, hlast, Option.map_some])
  intro before op after h
  -- the same place in the typed sequence
  obtain ⟨before', rest, rfl, rfl, hrest⟩ := List.map_eq_append_iff.mp h
  obtain ⟨op', after', rfl, rfl, -⟩ := List.map_eq_cons_iff.mp hrest
  rw [← writesTyped_eq]
  exact hok before' op' after' rfl

/-- A number and a truth value behind another child, and the number again. The last write of a name
is the one that is read. -/
theorem typed_writes_three :
    (writesTyped ⟨"root".toList, [], [⟨"a".toList, [], []⟩]⟩
      [("n".toList, .int 5), ("b".toList, .bool true), ("n".toList, .int (-12))]).ReadsAs
        "n".toList (.int (-12)) := by
  have hn : segments "n".toList = ["n".toList] := segments_of_none (by decide)
  have hb : segments "b".toList = ["b".toList] := segments_of_none (by decide)
  refine typed_writes _ _ ?_ _ _ (by rfl)
  intro before op after h
  rw [writesTyped_eq]
  -- before each write the path must not have been shadowed
  match before with
  | [] =>
    simp only [List.nil_append, List.cons.injEq] at h
    rw [← h.1, hn]
    simp only [writes, List.map_nil, List.foldl_nil, HitsFirstChild]
    decide
  | [first] =>
    simp only [List.cons_append, List.nil_append, List.cons.injEq] at h
    rw [← h.1, ← h.2.1, hb]
    simp only [writes, List.map_cons, List.map_nil, List.foldl_cons, List.foldl_nil, writeString,
      write_eq, hn, HitsFirstChild]
    decide
  | [first, second] =>
    simp only [List.cons_append, List.nil_append, List.cons.injEq] at h
    rw [← h.1, ← h.2.1, ← h.2.2.1, hn]
    simp only [writes, List.map_cons, List.map_nil, List.foldl_cons, List.foldl_nil, writeString,
      write_eq, hn, hb, HitsFirstChild]
    decide
  | first :: second :: third :: before =>
    simp at h

end LZData

end OnlineJudger
