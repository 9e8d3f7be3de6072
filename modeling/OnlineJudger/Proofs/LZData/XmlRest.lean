import OnlineJudger.LZData.Xml
import OnlineJudger.Lib.Fuel
import Mathlib.Data.List.GetD

/-!
# `OnlineJudger.Proofs.LZData.XmlRest`: the xml parser on the text that is left

`parseReal` moves an index through a buffer. All that it reads lies at or behind the index,
so it is a function of the text that is left there. `parseRest` is that function, and
`parseReal_toRest` says that the two agree step by step. What follows about the parser is
proved about `parseRest` and carried over.

* `parseRest_fuelMono`: more fuel keeps a result.
* `parseRest_isSome`: one unit of fuel for each character and one more suffices, so `parse`
  always returns or runs into a fault (`parse_isSome`).
-/

set_option autoImplicit false

namespace OnlineJudger

open Lib

namespace WrapperStream

/-- The text at and behind the index. -/
def rest (s : WrapperStream) : Text := (List.range' s.index (s.size - s.index)).map s.buffer

/-- The text that is left is as long as the buffer behind the index. -/
@[simp] theorem length_rest (s : WrapperStream) : s.rest.length = s.size - s.index := by
  simp only [rest, List.length_map, List.length_range']

/-- `getRange` does not depend on the index. -/
@[simp] theorem getRange_seek (s : WrapperStream) (i : Nat) :
    (s.seek i).getRange = s.getRange := rfl

/-- At the beginning all of the text is left. -/
theorem rest_ofText (text : Text) : (ofText text).rest = text := by
  refine List.ext_getElem ?_ ?_
  · rw [length_rest]
    rfl
  · intro i _ hi
    simp only [rest, ofText, List.getElem_map, List.getElem_range', Nat.zero_add, Nat.one_mul]
    rw [List.getD_eq_getElem _ _ hi]

/-- Moving the index on drops from the text that is left. -/
theorem rest_seek (s : WrapperStream) (k : Nat) : (s.seek (s.index + k)).rest = s.rest.drop k := by
  simp only [rest, seek, ← List.map_drop, List.drop_range', Nat.mul_one, Nat.sub_add_eq]

/-- An empty stream has nothing left. -/
theorem rest_eq_nil_of_empty {s : WrapperStream} (h : s.empty = true) : s.rest = [] := by
  simp only [empty, ge_iff_le, decide_eq_true_eq] at h
  rw [rest, Nat.sub_eq_zero_of_le h]
  rfl

/-- A search over positions finds what a search over the characters finds. -/
theorem find_range' (f : Nat → Char) (ch : Char) (i n : Nat) :
    (List.range' i n).find? (fun j => f j == ch) =
      (findFirstOf ((List.range' i n).map f) ch).map (i + ·) := by
  induction n generalizing i with
  | zero => rfl
  | succ n ih =>
    unfold findFirstOf at ih ⊢
    rw [List.range'_succ, List.find?_cons, List.map_cons, List.findIdx?_cons, ih]
    cases f i == ch with
    | true => rfl
    | false =>
      simp only [Option.map_map, Bool.false_eq_true, if_false]
      congr 1
      funext k
      simp only [Function.comp_apply]
      omega

/-- `find` searches the text that is left. -/
theorem find_eq (s : WrapperStream) (ch : Char) :
    s.find ch = (findFirstOf s.rest ch).map (s.index + ·) := find_range' s.buffer ch _ _

/-- `getRange` reads the text that is left. -/
theorem getRange_eq (s : WrapperStream) {b e : Nat} (he : e < s.rest.length) :
    s.getRange [] (s.index + b) (s.index + e) =
      if e < b then .error .lengthError else .ok (true, (s.rest.take e).drop b) := by
  rw [length_rest] at he
  unfold getRange
  rw [if_neg (by omega)]
  by_cases hlt : e < b
  · rw [if_pos hlt, if_pos (by omega)]
  · rw [if_neg hlt, if_neg (by omega), rest, ← List.map_take, ← List.map_drop,
      List.take_range'_of_length_ge (Nat.le_of_lt he), List.drop_range', Nat.mul_one]
    congr 3
    congr 1
    omega

/-- `getRange` from the index on. -/
theorem getRange_index (s : WrapperStream) {n : Nat} (hn : n < s.rest.length) :
    s.getRange [] s.index (s.index + n) = .ok (true, s.rest.take n) := by
  have := s.getRange_eq (b := 0) hn
  rw [if_neg (Nat.not_lt_zero n), Nat.add_zero, List.drop_zero] at this
  exact this

end WrapperStream

namespace XmlParser

open WrapperStream

/-- How a call on the text that is left ends. -/
inductive RestResult where
  | returned (ok : Bool) (parent : LZData) (rest : Text)
  | fault (f : ParseFault)

/-- The result with the stream replaced by the text that is left. -/
def ParseResult.toRest : ParseResult → RestResult
  | .returned ok parent s => .returned ok parent s.rest
  | .fault f => .fault f

/-- What `parseReal` does with a tag. `rest` is the text behind the tag, and `parse` reads on. -/
def onTag (parse : Bool → LZData → Text → Option RestResult) (isRoot : Bool) (parent : LZData)
    (rest : Text) : TagKind → Option RestResult
  | .closing tag => some (.returned (tag = parent.tag) parent rest)
  | .attr tag => parse isRoot (parent.addChild ⟨tag, [], []⟩) rest
  | .opening tag =>
    match findFirstOf rest '<' with
    | none => some (.returned false (parent.addChild ⟨tag, [], []⟩) rest)
    | some n =>
      match parse false ⟨tag, trimString (rest.take n), []⟩ (rest.drop n) with
      | none => none
      | some (.fault f) => some (.fault f)
      | some (.returned false node rest) => some (.returned false (parent.addChild node) rest)
      | some (.returned true node rest) => parse isRoot (parent.addChild node) rest

/-- `parseReal` on the text that is left. -/
def parseRest : Nat → Bool → LZData → Text → Option RestResult
  | 0, _, _, _ => none
  | fuel + 1, isRoot, parent, t =>
    match findFirstOf t '<' with
    | none => some (.returned isRoot parent t)
    | some b =>
      match findFirstOf t '>' with
      | none => some (.returned false parent t)
      | some e =>
        if e < b + 1 then some (.fault .lengthError)
        else
          onTag (parseRest fuel) isRoot parent (t.drop (e + 1))
            (tagKind (trimString ((t.take e).drop (b + 1))))

/-- `parseReal` is `parseRest` on the text that is left. By induction on the fuel, pass by pass:
positions in the buffer and fronts of the text are two ways to say the same. -/
theorem parseReal_toRest (fuel : Nat) (isRoot : Bool) (parent : LZData) (s : WrapperStream) :
    (parseReal fuel isRoot parent s).map ParseResult.toRest =
      parseRest fuel isRoot parent s.rest := by
  induction fuel generalizing isRoot parent s with
  | zero => rfl
  | succ fuel ih =>
    rw [parseReal, parseRest]
    -- `empty` is no case of its own for the rest: there is no tag in it
    by_cases hempty : s.empty = true
    · rw [if_pos hempty, rest_eq_nil_of_empty hempty]
      simp only [findFirstOf, List.findIdx?_nil, Option.map_some, ParseResult.toRest,
        rest_eq_nil_of_empty hempty]
    rw [if_neg hempty, find_eq]
    cases hb : findFirstOf s.rest '<' with
    | none => rfl
    | some b =>
    simp only [Option.map_some]
    rw [find_eq]
    cases he : findFirstOf s.rest '>' with
    | none => rfl
    | some e =>
    simp only [Option.map_some]
    -- the stream behind the tag, named before the tag is read from it
    have hget : (s.seek (s.index + e + 1)).getRange [] (s.index + b + 1) (s.index + e) =
        if e < b + 1 then .error .lengthError else .ok (true, (s.rest.take e).drop (b + 1)) := by
      rw [getRange_seek, Nat.add_assoc, getRange_eq s (findFirstOf_lt he)]
    have hrest : (s.seek (s.index + e + 1)).rest = s.rest.drop (e + 1) := by
      rw [Nat.add_assoc, rest_seek]
    rw [hget, ← hrest]
    generalize s.seek (s.index + e + 1) = s'
    by_cases hlt : e < b + 1
    · rw [if_pos hlt, if_pos hlt]
      rfl
    rw [if_neg hlt, if_neg hlt]
    simp only []
    cases tagKind (trimString ((s.rest.take e).drop (b + 1))) with
    | closing tag => rfl
    | attr tag => exact ih _ _ _
    | opening tag =>
    simp only [onTag]
    rw [find_eq]
    cases hn : findFirstOf s'.rest '<' with
    | none => rfl
    | some n =>
    simp only [Option.map_some]
    rw [getRange_seek, getRange_index s' (findFirstOf_lt hn)]
    simp only []
    rw [← rest_seek, ← ih]
    -- the recursive call for the children
    cases parseReal fuel false ⟨tag, trimString (s'.rest.take n), []⟩ (s'.seek (s'.index + n)) with
    | none => rfl
    | some r =>
    cases r with
    | fault f => rfl
    | returned ok node s'' =>
    cases ok with
    | false => rfl
    | true => exact ih _ _ _

/-! ### One pass of the loop -/

/-- No tag is left. -/
theorem parseRest_noTag {t : Text} (h : '<' ∉ t) (fuel : Nat) (isRoot : Bool) (parent : LZData) :
    parseRest (fuel + 1) isRoot parent t = some (.returned isRoot parent t) := by
  rw [parseRest, findFirstOf_eq_none.mpr h]

/-- The next tag has no end. -/
theorem parseRest_noEnd {t : Text} (hopen : '<' ∈ t) (h : '>' ∉ t) (fuel : Nat)
    (isRoot : Bool) (parent : LZData) :
    parseRest (fuel + 1) isRoot parent t = some (.returned false parent t) := by
  rw [parseRest, findFirstOf_eq_none.mpr h]
  cases hb : findFirstOf t '<' with
  | none => exact absurd hopen (findFirstOf_eq_none.mp hb)
  | some b => rfl

/-- An end mark stands before the next tag. -/
theorem parseRest_stray {u w v : Text} (hu : '<' ∉ u) (hu' : '>' ∉ u) (hw : '<' ∉ w) (fuel : Nat)
    (isRoot : Bool) (parent : LZData) :
    parseRest (fuel + 1) isRoot parent (u ++ '>' :: (w ++ '<' :: v)) =
      some (.fault .lengthError) := by
  -- the end lies in front of the begin, so the length is negative
  have hb : findFirstOf (u ++ '>' :: (w ++ '<' :: v)) '<' = some (u ++ '>' :: w).length := by
    rw [← List.cons_append, ← List.append_assoc, findFirstOf_append_cons]
    simp only [List.mem_append, List.mem_cons, hu, hw, or_false, false_or]
    decide
  rw [parseRest, hb, findFirstOf_append_cons hu']
  simp only []
  rw [if_pos (by rw [List.length_append, List.length_cons]; omega)]

/-- The text behind a character. -/
theorem drop_length_succ (u v : Text) (c : Char) : (u ++ c :: v).drop (u.length + 1) = v := by
  rw [← List.singleton_append, ← List.append_assoc, List.drop_left']
  rw [List.length_append, List.length_singleton]

/-- The next tag is `body`, behind a text `w` without angle brackets. -/
theorem parseRest_tag {w body : Text} (hopen : '<' ∉ w) (hclose : '>' ∉ w) (hbody : '>' ∉ body)
    (fuel : Nat) (isRoot : Bool) (parent : LZData) (rest : Text) :
    parseRest (fuel + 1) isRoot parent (w ++ '<' :: (body ++ '>' :: rest)) =
      onTag (parseRest fuel) isRoot parent rest (tagKind (trimString body)) := by
  have hwb : '>' ∉ w ++ '<' :: body := by
    simp only [List.mem_append, List.mem_cons, hclose, hbody, or_false, false_or]
    decide
  have hsplit : w ++ '<' :: (body ++ '>' :: rest) = w ++ '<' :: body ++ '>' :: rest := by
    rw [List.append_assoc, List.cons_append]
  have hend : findFirstOf (w ++ '<' :: (body ++ '>' :: rest)) '>' =
      some (w ++ '<' :: body).length := by
    rw [hsplit, findFirstOf_append_cons hwb]
  have htake : (w ++ '<' :: (body ++ '>' :: rest)).take (w ++ '<' :: body).length =
      w ++ '<' :: body := by
    rw [hsplit, List.take_left]
  rw [parseRest, findFirstOf_append_cons hopen, hend]
  simp only []
  rw [if_neg (by rw [List.length_append, List.length_cons]; omega), htake, drop_length_succ,
    hsplit, drop_length_succ]

/-- An opening tag in front of a text with a further tag. -/
theorem onTag_opening {content : Text} (h : '<' ∉ content) (fuel : Nat) (isRoot : Bool)
    (parent : LZData) (tag rest : Text) :
    onTag (parseRest fuel) isRoot parent (content ++ '<' :: rest) (.opening tag) =
      match parseRest fuel false ⟨tag, trimString content, []⟩ ('<' :: rest) with
      | none => none
      | some (.fault f) => some (.fault f)
      | some (.returned false node rest) => some (.returned false (parent.addChild node) rest)
      | some (.returned true node rest) => parseRest fuel isRoot (parent.addChild node) rest := by
  simp only [onTag]
  rw [findFirstOf_append_cons h]
  simp only [List.take_left, List.drop_left]

/-- An opening tag with no tag behind it. -/
theorem onTag_opening_last {rest : Text} (h : '<' ∉ rest) (fuel : Nat) (isRoot : Bool)
    (parent : LZData) (tag : Text) :
    onTag (parseRest fuel) isRoot parent rest (.opening tag) =
      some (.returned false (parent.addChild ⟨tag, [], []⟩) rest) := by
  simp only [onTag]
  rw [findFirstOf_eq_none.mpr h]

/-- The texts a pass of the loop tells apart. -/
theorem text_cases (t : Text) :
    '<' ∉ t ∨ ('<' ∈ t ∧ '>' ∉ t) ∨
      (∃ u w v, t = u ++ '>' :: (w ++ '<' :: v) ∧ '<' ∉ u ∧ '>' ∉ u ∧ '<' ∉ w) ∨
      ∃ w body rest, t = w ++ '<' :: (body ++ '>' :: rest) ∧ '<' ∉ w ∧ '>' ∉ w ∧ '>' ∉ body := by
  by_cases hopen : '<' ∈ t
  · obtain ⟨w, v, rfl, hw⟩ := List.eq_append_cons_of_mem hopen
    by_cases hclose : '>' ∈ w
    · obtain ⟨u, w, rfl, hu⟩ := List.eq_append_cons_of_mem hclose
      simp only [List.mem_append, List.mem_cons, not_or] at hw
      refine .inr (.inr (.inl ⟨u, w, v, ?_, hw.1, hu, hw.2.2⟩))
      rw [List.append_assoc, List.cons_append]
    · by_cases hv : '>' ∈ v
      · obtain ⟨body, rest, rfl, hbody⟩ := List.eq_append_cons_of_mem hv
        exact .inr (.inr (.inr ⟨w, body, rest, rfl, hw, hclose, hbody⟩))
      · refine .inr (.inl ⟨hopen, ?_⟩)
        simp only [List.mem_append, List.mem_cons, hclose, hv, or_false, false_or]
        decide
  · exact .inl hopen

/-! ### Fuel -/

/-- What is done with a tag is done as well with a call that returns more often. So more fuel does
not change a result that is there. -/
theorem onTag_mono {parse parse' : Bool → LZData → Text → Option RestResult}
    (h : ∀ isRoot parent t y, parse isRoot parent t = some y → parse' isRoot parent t = some y)
    {isRoot : Bool} {parent : LZData} {rest : Text} {kind : TagKind} {y : RestResult}
    (hy : onTag parse isRoot parent rest kind = some y) :
    onTag parse' isRoot parent rest kind = some y := by
  cases kind with
  | closing tag => exact hy
  | attr tag => exact h _ _ _ _ hy
  -- an opening tag: the child first, and the parent's rest only behind a child that succeeds
  | opening tag =>
  simp only [onTag] at hy ⊢
  cases hn : findFirstOf rest '<' with
  | none =>
    rw [hn] at hy
    exact hy
  | some n =>
  rw [hn] at hy
  simp only [] at hy ⊢
  cases hr : parse false ⟨tag, trimString (rest.take n), []⟩ (rest.drop n) with
  | none =>
    rw [hr] at hy
    simp only [reduceCtorEq] at hy
  | some r =>
  rw [hr] at hy
  rw [h _ _ _ _ hr]
  -- a fault and a failure end the parent as well
  cases r with
  | fault f => exact hy
  | returned ok node rest =>
  cases ok with
  | false => exact hy
  | true => exact h _ _ _ _ hy

/-- More fuel keeps a result, by induction on the fuel. -/
theorem parseRest_fuelMono :
    FuelMono fun fuel (x : Bool × LZData × Text) => parseRest fuel x.1 x.2.1 x.2.2 := by
  intro fuel
  induction fuel with
  | zero =>
    intro x y h
    simp only [parseRest, reduceCtorEq] at h
  | succ fuel ih =>
    rintro ⟨isRoot, parent, t⟩ y h
    simp only [Prod.forall] at ih h ⊢
    -- the same four texts in the call with more fuel
    rcases text_cases t with ht | ⟨hopen, ht⟩ | ⟨u, w, v, rfl, hu, hu', hw⟩ |
      ⟨w, body, rest, rfl, hw, hw', hbody⟩
    · rwa [parseRest_noTag ht] at h ⊢
    · rwa [parseRest_noEnd hopen ht] at h ⊢
    · rwa [parseRest_stray hu hu' hw] at h ⊢
    · rw [parseRest_tag hw hw' hbody] at h ⊢
      exact onTag_mono ih h

/-- A call that has more fuel than text returns with no more text than it started with, or runs into
a fault. By induction on the fuel: each tag takes two characters at least. -/
theorem parseRest_isSome {fuel : Nat} {t : Text} (h : t.length < fuel) (isRoot : Bool)
    (parent : LZData) :
    (∃ f, parseRest fuel isRoot parent t = some (.fault f)) ∨
      ∃ ok parent' rest, parseRest fuel isRoot parent t = some (.returned ok parent' rest) ∧
        rest.length ≤ t.length := by
  induction fuel generalizing isRoot parent t with
  | zero => exact absurd h (Nat.not_lt_zero _)
  | succ fuel ih =>
    rcases text_cases t with ht | ⟨hopen, ht⟩ | ⟨u, w, v, rfl, hu, hu', hw⟩ |
      ⟨w, body, rest, rfl, hw, hw', hbody⟩
    · exact .inr ⟨_, _, _, parseRest_noTag ht .., Nat.le_refl _⟩
    · exact .inr ⟨_, _, _, parseRest_noEnd hopen ht .., Nat.le_refl _⟩
    · exact .inl ⟨_, parseRest_stray hu hu' hw ..⟩
    -- the text behind the tag is shorter, so the calls that read on have fuel left
    have hlen : rest.length + 2 ≤ (w ++ '<' :: (body ++ '>' :: rest)).length := by
      simp only [List.length_append, List.length_cons]
      omega
    rw [parseRest_tag hw hw' hbody]
    cases tagKind (trimString body) with
    | closing tag => exact .inr ⟨_, _, _, rfl, by omega⟩
    | attr tag =>
      rcases ih (t := rest) (by omega) isRoot (parent.addChild ⟨tag, [], []⟩) with
        hf | ⟨ok, parent', rest', hr, hle⟩
      · exact .inl hf
      · exact .inr ⟨ok, parent', rest', hr, by omega⟩
    | opening tag =>
    by_cases hnext : '<' ∈ rest
    · obtain ⟨content, after, rfl, hcontent⟩ := List.eq_append_cons_of_mem hnext
      have hlen' : ('<' :: after).length ≤ (content ++ '<' :: after).length := by
        simp only [List.length_append, List.length_cons]
        omega
      rw [onTag_opening hcontent]
      rcases ih (t := '<' :: after) (by omega) false ⟨tag, trimString content, []⟩ with
        ⟨f, hr⟩ | ⟨ok, node, rest', hr, hle⟩
      · rw [hr]
        exact .inl ⟨f, rfl⟩
      · rw [hr]
        cases ok with
        | false => exact .inr ⟨_, _, _, rfl, by omega⟩
        | true =>
          rcases ih (t := rest') (by omega) isRoot (parent.addChild node) with
            hf | ⟨ok, parent', rest'', hr', hle'⟩
          · exact .inl hf
          · exact .inr ⟨ok, parent', rest'', hr', by omega⟩
    · rw [onTag_opening_last hnext]
      exact .inr ⟨_, _, _, rfl, by omega⟩

/-! ### Reading with enough fuel

The rules of the parser as a relation. `body` is the text between the angle brackets of the
next tag, and `w` is the text before it. -/

/-- Some fuel reads `t` below `parent` to `r`. -/
def Reads (isRoot : Bool) (parent : LZData) (t : Text) (r : RestResult) : Prop :=
  Evals (fun fuel (x : Bool × LZData × Text) => parseRest fuel x.1 x.2.1 x.2.2)
    (isRoot, parent, t) r

namespace Reads

/-- No tag is left: that is the end of the root, and an error below it. -/
theorem noTag {t : Text} (h : '<' ∉ t) (isRoot : Bool) (parent : LZData) :
    Reads isRoot parent t (.returned isRoot parent t) := ⟨1, parseRest_noTag h ..⟩

/-- The next tag has no end. -/
theorem noEnd {t : Text} (hopen : '<' ∈ t) (h : '>' ∉ t) (isRoot : Bool) (parent : LZData) :
    Reads isRoot parent t (.returned false parent t) := ⟨1, parseRest_noEnd hopen h ..⟩

variable {w body tag : Text} {isRoot : Bool} {parent : LZData}

/-- A closing tag ends the call. It returns true if it is the one of its parent. -/
theorem closing (hw : '<' ∉ w) (hw' : '>' ∉ w) (hbody : '>' ∉ body)
    (hkind : tagKind (trimString body) = .closing tag) (rest : Text) :
    Reads isRoot parent (w ++ '<' :: (body ++ '>' :: rest))
      (.returned (tag = parent.tag) parent rest) := by
  refine ⟨1, ?_⟩
  simp only []
  rw [parseRest_tag hw hw' hbody, hkind]
  rfl

/-- A tag that is an element of its own. -/
theorem attr (hw : '<' ∉ w) (hw' : '>' ∉ w) (hbody : '>' ∉ body)
    (hkind : tagKind (trimString body) = .attr tag) {rest : Text} {r : RestResult}
    (hnext : Reads isRoot (parent.addChild ⟨tag, [], []⟩) rest r) :
    Reads isRoot parent (w ++ '<' :: (body ++ '>' :: rest)) r := by
  obtain ⟨fuel, hnext⟩ := hnext
  refine ⟨fuel + 1, ?_⟩
  simp only [] at hnext ⊢
  rw [parseRest_tag hw hw' hbody, hkind]
  exact hnext

/-- An element whose children are read to its closing tag. -/
theorem opening (hw : '<' ∉ w) (hw' : '>' ∉ w) (hbody : '>' ∉ body)
    (hkind : tagKind (trimString body) = .opening tag) {content : Text}
    (hcontent : '<' ∉ content) {node : LZData} {rest rest' : Text} {r : RestResult}
    (hnode : Reads false ⟨tag, trimString content, []⟩ ('<' :: rest) (.returned true node rest'))
    (hnext : Reads isRoot (parent.addChild node) rest' r) :
    Reads isRoot parent (w ++ '<' :: (body ++ '>' :: (content ++ '<' :: rest))) r := by
  -- one fuel for the children and for what follows them
  obtain ⟨fuel, hnode, hnext⟩ := parseRest_fuelMono.common hnode hnext
  refine ⟨fuel + 1, ?_⟩
  simp only [] at hnode hnext ⊢
  rw [parseRest_tag hw hw' hbody, hkind]
  rw [onTag_opening hcontent, hnode]
  exact hnext

/-- An element whose children are not read to a closing tag. -/
theorem opening_fails (hw : '<' ∉ w) (hw' : '>' ∉ w) (hbody : '>' ∉ body)
    (hkind : tagKind (trimString body) = .opening tag) {content : Text}
    (hcontent : '<' ∉ content) {node : LZData} {rest rest' : Text}
    (hnode : Reads false ⟨tag, trimString content, []⟩ ('<' :: rest)
      (.returned false node rest')) :
    Reads isRoot parent (w ++ '<' :: (body ++ '>' :: (content ++ '<' :: rest)))
      (.returned false (parent.addChild node) rest') := by
  obtain ⟨fuel, hnode⟩ := hnode
  refine ⟨fuel + 1, ?_⟩
  simp only [] at hnode ⊢
  rw [parseRest_tag hw hw' hbody, hkind]
  rw [onTag_opening hcontent, hnode]

/-- An opening tag with no tag behind it. -/
theorem opening_last (hw : '<' ∉ w) (hw' : '>' ∉ w) (hbody : '>' ∉ body)
    (hkind : tagKind (trimString body) = .opening tag) {rest : Text} (hrest : '<' ∉ rest) :
    Reads isRoot parent (w ++ '<' :: (body ++ '>' :: rest))
      (.returned false (parent.addChild ⟨tag, [], []⟩) rest) := by
  refine ⟨1, ?_⟩
  simp only []
  rw [parseRest_tag hw hw' hbody, hkind]
  exact onTag_opening_last hrest ..

/-- An element whose children run into a fault. -/
theorem opening_fault (hw : '<' ∉ w) (hw' : '>' ∉ w) (hbody : '>' ∉ body)
    (hkind : tagKind (trimString body) = .opening tag) {content : Text}
    (hcontent : '<' ∉ content) {rest : Text} {f : ParseFault}
    (hnode : Reads false ⟨tag, trimString content, []⟩ ('<' :: rest) (.fault f)) :
    Reads isRoot parent (w ++ '<' :: (body ++ '>' :: (content ++ '<' :: rest))) (.fault f) := by
  obtain ⟨fuel, hnode⟩ := hnode
  refine ⟨fuel + 1, ?_⟩
  simp only [] at hnode ⊢
  rw [parseRest_tag hw hw' hbody, hkind]
  rw [onTag_opening hcontent, hnode]

/-- A call leaves no more text than it started with. -/
theorem length_le {t rest : Text} {ok : Bool} {parent' : LZData}
    (h : Reads isRoot parent t (.returned ok parent' rest)) : rest.length ≤ t.length := by
  rcases parseRest_isSome (Nat.lt_succ_self t.length) isRoot parent with
    ⟨f, h'⟩ | ⟨ok', parent'', rest', h', hle⟩
  · exact RestResult.noConfusion (parseRest_fuelMono.unique h ⟨_, h'⟩)
  · obtain ⟨-, -, rfl⟩ := RestResult.returned.inj (parseRest_fuelMono.unique h ⟨_, h'⟩)
    exact hle

end Reads

/-! ### The call of `parse` -/

/-- The fuel that `parse` gives to `parseReal` suffices. -/
theorem parse_toRest (s : WrapperStream) (parent : Option LZData) {r : RestResult}
    (h : Reads true (parent.getD ⟨rootTag, [], []⟩) s.rest r) :
    (parse s parent).map ParseResult.toRest = some r := by
  rw [parse, parseReal_toRest]
  refine parseRest_fuelMono.eq_of_isSome h ?_
  simp only []
  have hfuel : s.rest.length < s.size + 1 := by
    rw [length_rest]
    omega
  rcases parseRest_isSome hfuel true (parent.getD ⟨rootTag, [], []⟩) with
    ⟨f, h⟩ | ⟨ok, parent', rest, h, -⟩
  · rw [h]
    rfl
  · rw [h]
    rfl

/-- `parse` always returns or runs into a fault. -/
theorem parse_isSome (s : WrapperStream) (parent : Option LZData) :
    (parse s parent).isSome = true := by
  have hread : ∃ r, Reads true (parent.getD ⟨rootTag, [], []⟩) s.rest r := by
    rcases parseRest_isSome (Nat.lt_succ_self s.rest.length) true
      (parent.getD ⟨rootTag, [], []⟩) with ⟨f, h⟩ | ⟨ok, parent', rest, h, -⟩
    · exact ⟨_, _, h⟩
    · exact ⟨_, _, h⟩
  obtain ⟨r, hr⟩ := hread
  rw [← Option.isSome_map (f := ParseResult.toRest), parse_toRest s parent hr]
  rfl

/-- What `parse` returns. -/
theorem parse_eq_returned (s : WrapperStream) (parent : Option LZData) {ok : Bool}
    {parent' : LZData} {rest : Text}
    (h : Reads true (parent.getD ⟨rootTag, [], []⟩) s.rest (.returned ok parent' rest)) :
    ∃ s', parse s parent = some (.returned ok parent' s') ∧ s'.rest = rest := by
  have hparse := parse_toRest s parent h
  cases hp : parse s parent with
  | none =>
    rw [hp] at hparse
    simp only [Option.map_none, reduceCtorEq] at hparse
  | some r =>
    rw [hp] at hparse
    cases r with
    | fault f =>
      simp only [Option.map_some, ParseResult.toRest, Option.some.injEq, reduceCtorEq] at hparse
    | returned ok' root s' =>
      simp only [Option.map_some, ParseResult.toRest, Option.some.injEq,
        RestResult.returned.injEq] at hparse
      obtain ⟨rfl, rfl, rfl⟩ := hparse
      exact ⟨s', rfl, rfl⟩

end XmlParser

end OnlineJudger
