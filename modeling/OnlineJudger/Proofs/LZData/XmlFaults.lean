import OnlineJudger.Proofs.LZData.XmlRest
import OnlineJudger.Lib.Bracket

/-!
# `OnlineJudger.Proofs.LZData.XmlFaults`: where the xml parser runs into a fault

`accesses` lists the calls of `getRange` and the reads of `tag[0]` in a run of the parser.
`lexTags` reads the tags of a text up to the first stray end mark, at which the parser cannot
go on. It knows nothing of elements.

* `exists_ends`: what `parseReal` returns below any parent, and which children it adds, in
  terms of `lexTags`.
* `checked_accesses`: a call that returns has read from the buffer only.
* `firstChar_nil_mem_accesses_iff`: a call reads `tag[0]` of an empty tag exactly if it reaches a
  blank tag.
* `accesses_safe_iff`: the accesses are safe exactly if neither is reached, a blank tag or a
  stray end mark. A place is reached unless the tags before it do not nest.
-/

set_option autoImplicit false

namespace OnlineJudger

open Lib

namespace XmlParser

/-! ### The accesses of a run -/

/-- What the parser does with the text it has found. -/
inductive Access where
  /-- `getRange` with this begin and end. -/
  | range (begin' end' : Nat)
  /-- `tag[0]`. -/
  | firstChar (tag : Text)
  deriving DecidableEq, Repr

/-- The range lies in the buffer, or the tag is not empty. -/
def Access.Safe (size : Nat) : Access → Prop
  | .range begin' end' => begin' ≤ end' ∧ end' ≤ size
  | .firstChar tag => tag ≠ []

/-- The range lies in the buffer. -/
def Access.InBuffer (size : Nat) : Access → Prop
  | .range begin' end' => begin' ≤ end' ∧ end' ≤ size
  | .firstChar _ => True

/-- An access is safe if it stays in the buffer and does not read an empty tag. -/
theorem Access.safe_iff (size : Nat) (a : Access) :
    a.Safe size ↔ a.InBuffer size ∧ a ≠ .firstChar [] := by
  cases a with
  | range begin' end' => simp only [Safe, InBuffer, ne_eq, reduceCtorEq, not_false_eq_true,
      and_true]
  | firstChar tag => simp only [Safe, InBuffer, ne_eq, Access.firstChar.injEq, true_and]

/-- The accesses of `parseReal`, in order and up to a negative length. The read of an empty tag
gives a NUL, so the accesses go on behind it. -/
def accesses : Nat → Bool → LZData → WrapperStream → List Access
  | 0, _, _, _ => []
  | fuel + 1, isRoot, parent, s =>
    if s.empty then []
    else
      match s.find '<', s.find '>' with
      | some begin', some end' =>
        let s := s.seek (end' + 1)
        .range (begin' + 1) end' ::
          match s.getRange [] (begin' + 1) end' with
          | .error _ => []
          | .ok (_, tag) =>
            .firstChar (trimString tag) ::
              match tagKind (trimString tag) with
              | .closing _ => []
              | .attr tag => accesses fuel isRoot (parent.addChild ⟨tag, [], []⟩) s
              | .opening tag =>
                let begin' := s.index
                match s.find '<' with
                | none => []
                | some end' =>
                  let s := s.seek end'
                  .range begin' end' ::
                    match s.getRange [] begin' end' with
                    | .error _ => []
                    | .ok (_, value) =>
                      accesses fuel false ⟨tag, trimString value, []⟩ s ++
                        match parseReal fuel false ⟨tag, trimString value, []⟩ s with
                        | some (.returned true node s) =>
                          accesses fuel isRoot (parent.addChild node) s
                        | _ => []
      | _, _ => []

/-- The accesses of `parse`. -/
def parseAccesses (s : WrapperStream) (parent : Option LZData) : List Access :=
  accesses (s.size + 1) true (parent.getD ⟨rootTag, [], []⟩) s

/-- A search finds something at or behind the index, in the buffer. -/
theorem find_bounds {s : WrapperStream} {ch : Char} {i : Nat} (h : s.find ch = some i) :
    s.index ≤ i ∧ i < s.size := by
  unfold WrapperStream.find at h
  have hmem := List.mem_of_find?_eq_some h
  rw [List.mem_range'_1] at hmem
  omega

/-- `getRange` behind a search has to do with the order of its arguments only. -/
theorem getRange_of_le {s : WrapperStream} {b e : Nat} (he : e ≤ s.size) :
    (e < b ∧ s.getRange [] b e = .error .lengthError) ∨
      (b ≤ e ∧ ∃ out, s.getRange [] b e = .ok (true, out)) := by
  unfold WrapperStream.getRange
  rw [if_neg (Nat.not_lt.mpr he)]
  by_cases hlt : e < b
  · exact .inl ⟨hlt, if_pos hlt⟩
  · exact .inr ⟨Nat.le_of_not_lt hlt, _, if_neg hlt⟩

/-- How a call ends and whether its accesses stay in the buffer. -/
def Checked (size : Nat) (as : List Access) : ParseResult → Prop
  | .returned _ _ s => s.size = size ∧ ∀ a ∈ as, a.InBuffer size
  | .fault _ => ¬ ∀ a ∈ as, a.InBuffer size

/-- The accesses in front of the others were good ones. -/
theorem Checked.prepend {size : Nat} {as as' : List Access} {r : ParseResult}
    (has : ∀ a ∈ as, a.InBuffer size) (h : Checked size as' r) : Checked size (as ++ as') r := by
  cases r with
  | returned ok parent s =>
    refine ⟨h.1, ?_⟩
    intro a ha
    rcases List.mem_append.mp ha with ha | ha
    · exact has a ha
    · exact h.2 a ha
  | fault f =>
    intro hall
    exact h fun a ha => hall a (List.mem_append_right _ ha)

/-- One good access in front of the others. -/
theorem Checked.cons {size : Nat} {a : Access} {as : List Access} {r : ParseResult}
    (ha : a.InBuffer size) (h : Checked size as r) : Checked size (a :: as) r := by
  have hsingle : ∀ b ∈ [a], b.InBuffer size := by
    intro b hb
    rw [List.mem_singleton] at hb
    rw [hb]
    exact ha
  exact h.prepend hsingle

/-- The recursive call for the children of `node`, and the loop behind it. What is read in the child
comes first, and the loop goes on only behind a child that has returned true. -/
theorem checked_children {fuel : Nat}
    (ih : ∀ {isRoot : Bool} {parent : LZData} {s : WrapperStream} {r : ParseResult},
      parseReal fuel isRoot parent s = some r → Checked s.size (accesses fuel isRoot parent s) r)
    {isRoot : Bool} {parent node : LZData} {s : WrapperStream} {r : ParseResult}
    (h : (match parseReal fuel false node s with
      | none => none
      | some (.fault f) => some (.fault f)
      | some (.returned false node s) => some (.returned false (parent.addChild node) s)
      | some (.returned true node s) => parseReal fuel isRoot (parent.addChild node) s) =
        some r) :
    Checked s.size
      (accesses fuel false node s ++
        match parseReal fuel false node s with
        | some (.returned true node s) => accesses fuel isRoot (parent.addChild node) s
        | _ => []) r := by
  -- the child may run out of fuel, end in a fault, fail or succeed
  cases hr : parseReal fuel false node s with
  | none =>
    rw [hr] at h
    cases h
  | some r' =>
  have hchecked := ih hr
  rw [hr] at h
  cases r' with
  -- a fault in the child is the fault of the whole
  | fault f =>
    cases h
    rw [List.append_nil]
    exact hchecked
  | returned ok node t =>
  obtain ⟨ht, hsafe⟩ := hchecked
  cases ok with
  -- a child that fails ends its parent too, and nothing more is read
  | false =>
    cases h
    rw [List.append_nil]
    exact ⟨ht, hsafe⟩
  -- the reads of the parent's rest come behind those of the child
  | true =>
    have := ih h
    rw [ht] at this
    exact this.prepend hsafe

/-- A call that returns has stayed in the buffer, and a call that runs into a fault has asked for a
range that does not. By induction on the fuel, along the cases of `parseReal`. -/
theorem checked_accesses {fuel : Nat} {isRoot : Bool} {parent : LZData} {s : WrapperStream}
    {r : ParseResult} (h : parseReal fuel isRoot parent s = some r) :
    Checked s.size (accesses fuel isRoot parent s) r := by
  induction fuel generalizing isRoot parent s r with
  | zero => simp only [parseReal, reduceCtorEq] at h
  | succ fuel ih =>
    rw [parseReal] at h
    rw [accesses]
    by_cases hempty : s.empty = true
    · rw [if_pos hempty, Option.some.injEq] at h
      rw [if_pos hempty, ← h]
      exact ⟨rfl, List.forall_mem_nil _⟩
    rw [if_neg hempty] at h ⊢
    cases hb : s.find '<' with
    | none =>
      rw [hb] at h
      cases h
      exact ⟨rfl, List.forall_mem_nil _⟩
    | some begin' =>
    cases he : s.find '>' with
    | none =>
      rw [hb, he] at h
      cases h
      exact ⟨rfl, List.forall_mem_nil _⟩
    | some end' =>
    simp only [hb, he, WrapperStream.getRange_seek] at h ⊢
    have hend : end' ≤ s.size := Nat.le_of_lt (find_bounds he).2
    rcases getRange_of_le (b := begin' + 1) hend with ⟨hlt, hget⟩ | ⟨hle, tag, hget⟩
    -- the end mark lies in front of the tag
    · rw [hget] at h ⊢
      cases h
      intro hall
      exact absurd (hall _ (List.mem_singleton_self _)).1 (Nat.not_le.mpr hlt)
    rw [hget] at h ⊢
    simp only [] at h ⊢
    refine Checked.cons ⟨hle, hend⟩ (Checked.cons trivial ?_)
    -- the stream behind the tag has the same size
    have hsize : (s.seek (end' + 1)).size = s.size := rfl
    generalize s.seek (end' + 1) = s' at h hsize ⊢
    rw [← hsize]
    cases hkind : tagKind (trimString tag) with
    | closing tag =>
      rw [hkind] at h
      cases h
      exact ⟨rfl, List.forall_mem_nil _⟩
    | attr tag =>
      rw [hkind] at h
      exact ih h
    | opening tag =>
    rw [hkind] at h
    simp only [] at h ⊢
    cases hn : s'.find '<' with
    | none =>
      rw [hn] at h
      cases h
      exact ⟨rfl, List.forall_mem_nil _⟩
    | some next =>
    rw [hn] at h
    simp only [] at h ⊢
    obtain ⟨hindex, hnext⟩ := find_bounds hn
    have hle : next ≤ s.size := hsize ▸ Nat.le_of_lt hnext
    rcases getRange_of_le (b := s'.index) hle with ⟨hlt, -⟩ | ⟨-, value, hget⟩
    · exact absurd hindex (Nat.not_le.mpr hlt)
    rw [hget] at h ⊢
    simp only [] at h ⊢
    refine Checked.cons ⟨hindex, Nat.le_of_lt hnext⟩ ?_
    have hsize' : (s'.seek next).size = s'.size := rfl
    rw [← hsize']
    exact checked_children ih h

/-! ### The tags that the parser may read -/

/-- Where the reading of the tags stands. -/
inductive LexState where
  /-- Before the first tag, or behind a tag that opens no element. `stray` says that an end
  mark has been met there. -/
  | between (stray : Bool)
  /-- Behind a tag that opens an element. The text here is its value. -/
  | content
  /-- In a tag, behind this part of it. -/
  | inTag (body : Text)
  deriving DecidableEq, Repr

/-- The state behind a tag. -/
def TagKind.after : TagKind → LexState
  | .opening _ => .content
  | _ => .between false

/-- The tags of a text up to the first stray end mark. -/
structure TagLex where
  /-- The tags. A blank tag is `.opening []`. -/
  kinds : List TagKind
  /-- What happens at the end mark. `none` means that there is none. -/
  fault : Option ParseFault
  deriving DecidableEq, Repr

/-- One tag in front of the others. -/
def TagLex.cons (kind : TagKind) (lex : TagLex) : TagLex := { lex with kinds := kind :: lex.kinds }

/-- Read the tags of a text. The state says what a bracket means where it stands: behind an opening
tag, an end mark belongs to the value. -/
def lexTags : LexState → Text → TagLex
  | _, [] => ⟨[], none⟩
  | .between stray, ch :: t =>
    if ch = '<' then if stray then ⟨[], some .lengthError⟩ else lexTags (.inTag []) t
    else lexTags (.between (stray || ch == '>')) t
  | .content, ch :: t => if ch = '<' then lexTags (.inTag []) t else lexTags .content t
  | .inTag body, ch :: t =>
    if ch = '>' then
      (lexTags (tagKind (trimString body)).after t).cons (tagKind (trimString body))
    else lexTags (.inTag (body ++ [ch])) t

/-- The element a tag opens or closes. A tag that is an element of its own is an atom. -/
def TagKind.bracket : TagKind → Bracket Text
  | .closing tag => .closing tag
  | .attr _ => .atom
  | .opening tag => .opening tag

/-- The name in the tag. -/
def TagKind.tag : TagKind → Text
  | .closing tag => tag
  | .attr tag => tag
  | .opening tag => tag

/-- Between two tags, only the brackets count. -/
theorem lexTags_skip {w : Text} (hw : '<' ∉ w) (hw' : '>' ∉ w) (t : Text) :
    lexTags (.between false) (w ++ t) = lexTags (.between false) t := by
  induction w with
  | nil => rfl
  | cons ch w ih =>
    rw [List.mem_cons, not_or] at hw hw'
    rw [List.cons_append, lexTags, if_neg (Ne.symm hw.1), beq_eq_false_iff_ne.mpr (Ne.symm hw'.1),
      Bool.or_self, ih hw.2 hw'.2]

/-- The begin of a tag. -/
theorem lexTags_open (t : Text) : lexTags (.between false) ('<' :: t) = lexTags (.inTag []) t :=
  rfl

/-- A value is read up to the next tag, end marks in it included. -/
theorem lexTags_content {content : Text} (h : '<' ∉ content) (rest : Text) :
    lexTags .content (content ++ '<' :: rest) = lexTags (.between false) ('<' :: rest) := by
  rw [lexTags_open]
  induction content with
  | nil => rfl
  | cons ch content ih =>
    rw [List.mem_cons, not_or] at h
    rw [List.cons_append, lexTags, if_neg (Ne.symm h.1), ih h.2]

/-- A value with no tag behind it. -/
theorem lexTags_content_last {t : Text} (h : '<' ∉ t) : lexTags .content t = ⟨[], none⟩ := by
  induction t with
  | nil => rfl
  | cons ch t ih =>
    rw [List.mem_cons, not_or] at h
    rw [lexTags, if_neg (Ne.symm h.1), ih h.2]

/-- No tag is left. -/
theorem lexTags_noTag {t : Text} (h : '<' ∉ t) (stray : Bool) :
    lexTags (.between stray) t = ⟨[], none⟩ := by
  induction t generalizing stray with
  | nil => rfl
  | cons ch t ih =>
    rw [List.mem_cons, not_or] at h
    rw [lexTags, if_neg (Ne.symm h.1), ih h.2]

/-- A begin mark behind a stray end mark: the parser asks for a range of negative length. -/
theorem lexTags_stray_behind {w : Text} (hw : '<' ∉ w) (v : Text) :
    lexTags (.between true) (w ++ '<' :: v) = ⟨[], some .lengthError⟩ := by
  induction w with
  | nil => rfl
  | cons ch w ih =>
    rw [List.mem_cons, not_or] at hw
    rw [List.cons_append, lexTags, if_neg (Ne.symm hw.1), Bool.true_or, ih hw.2]

/-- The stray end mark, in front of a further tag. -/
theorem lexTags_stray {u w : Text} (hu : '<' ∉ u) (hu' : '>' ∉ u) (hw : '<' ∉ w) (v : Text) :
    lexTags (.between false) (u ++ '>' :: (w ++ '<' :: v)) = ⟨[], some .lengthError⟩ := by
  rw [lexTags_skip hu hu', lexTags, if_neg (by decide), beq_self_eq_true, Bool.or_true,
    lexTags_stray_behind hw]

/-- A tag that is not finished is none. -/
theorem lexTags_unterminated {v : Text} (h : '>' ∉ v) (body : Text) :
    lexTags (.inTag body) v = ⟨[], none⟩ := by
  induction v generalizing body with
  | nil => rfl
  | cons ch v ih =>
    rw [List.mem_cons, not_or] at h
    rw [lexTags, if_neg (Ne.symm h.1), ih h.2]

/-- A last tag that is not finished. -/
theorem lexTags_noEnd {t : Text} (hopen : '<' ∈ t) (h : '>' ∉ t) :
    lexTags (.between false) t = ⟨[], none⟩ := by
  obtain ⟨w, v, rfl, hw⟩ := List.eq_append_cons_of_mem hopen
  rw [List.mem_append, List.mem_cons, not_or, not_or] at h
  rw [lexTags_skip hw h.1, lexTags_open, lexTags_unterminated h.2.2]

/-- A tag is read up to its end mark, and its kind says how the reading goes on. -/
theorem lexTags_body {body : Text} (h : '>' ∉ body) (acc rest : Text) :
    lexTags (.inTag acc) (body ++ '>' :: rest) =
      (lexTags (tagKind (trimString (acc ++ body))).after rest).cons
        (tagKind (trimString (acc ++ body))) := by
  induction body generalizing acc with
  | nil => rw [List.nil_append, lexTags, if_pos rfl, List.append_nil]
  | cons ch body ih =>
    rw [List.mem_cons, not_or] at h
    rw [List.cons_append, lexTags, if_neg (Ne.symm h.1), ih h.2, List.append_assoc,
      List.singleton_append]

/-- The first tag of a text. -/
theorem lexTags_tag {w body : Text} (hw : '<' ∉ w) (hw' : '>' ∉ w) (hbody : '>' ∉ body)
    (rest : Text) :
    lexTags (.between false) (w ++ '<' :: (body ++ '>' :: rest)) =
      (lexTags (tagKind (trimString body)).after rest).cons (tagKind (trimString body)) := by
  rw [lexTags_skip hw hw', lexTags_open, lexTags_body hbody, List.nil_append]

/-! ### What a call returns -/

/-- The call has added the elements at the top of these tags to `parent`. -/
def Adds (parent : LZData) (kinds : List TagKind) (parent' : LZData) : Prop :=
  parent'.tag = parent.tag ∧ parent'.children.map LZData.tag =
    parent.children.map LZData.tag ++ (tops TagKind.bracket [] kinds).map TagKind.tag

/-- How a call below `parent` ends that reads these tags. -/
def Ends (isRoot : Bool) (parent : LZData) (lex : TagLex) (r : RestResult) : Prop :=
  match walk TagKind.bracket [] lex.kinds with
  | .inside _ =>
    match lex.fault with
    | some f => r = .fault f
    | none => ∃ ok parent' rest, r = .returned (isRoot && ok) parent' rest ∧
        Adds parent lex.kinds parent'
  | .closed a after => ∃ parent' rest, r = .returned (a = parent.tag) parent' rest ∧
      Adds parent lex.kinds parent' ∧ lexTags (.between false) rest = ⟨after, lex.fault⟩
  | .mismatch => ∃ parent' rest, r = .returned false parent' rest ∧ Adds parent lex.kinds parent'

/-- No tag is read, and nothing is added. -/
theorem Adds.refl (parent : LZData) : Adds parent [] parent := by
  refine ⟨rfl, ?_⟩
  simp only [tops, List.map_nil, List.append_nil]

/-- The element `node` is added first. -/
theorem Adds.cons {parent node parent' : LZData} {kinds kinds' : List TagKind}
    (htops : (tops TagKind.bracket [] kinds').map TagKind.tag =
      node.tag :: (tops TagKind.bracket [] kinds).map TagKind.tag)
    (h : Adds (parent.addChild node) kinds parent') : Adds parent kinds' parent' := by
  refine ⟨h.1, ?_⟩
  rw [h.2, htops, LZData.addChild]
  simp only [List.map_append, List.map_cons, List.map_nil, List.append_assoc,
    List.singleton_append]

/-- The call stops at a closing tag. -/
theorem ends_closing (isRoot : Bool) (parent : LZData) (a rest : Text) :
    Ends isRoot parent ((lexTags (.between false) rest).cons (.closing a))
      (.returned (a = parent.tag) parent rest) :=
  ⟨parent, rest, rfl, Adds.refl parent, rfl⟩

/-- The call reads on below `parent` with `node` added. The walk over the tags is the same, and the
elements at the top have the new one in front. -/
theorem Ends.cons {isRoot : Bool} {parent node : LZData} {lex lex' : TagLex} {r : RestResult}
    (hfault : lex'.fault = lex.fault)
    (hwalk : walk TagKind.bracket [] lex'.kinds = walk TagKind.bracket [] lex.kinds)
    (htops : (tops TagKind.bracket [] lex'.kinds).map TagKind.tag =
      node.tag :: (tops TagKind.bracket [] lex.kinds).map TagKind.tag)
    (h : Ends isRoot (parent.addChild node) lex r) : Ends isRoot parent lex' r := by
  rw [Ends] at h
  rw [Ends, hwalk, hfault]
  -- the walk over the tags, and so the ending, is that of the rest; one child is new in front
  cases hw : walk TagKind.bracket [] lex.kinds with
  | inside stack =>
    rw [hw] at h
    cases hf : lex.fault with
    | some f =>
      -- the same fault
      rw [hf] at h
      exact h
    | none =>
      rw [hf] at h
      -- the text ends
      obtain ⟨ok, parent', rest, hr, h⟩ := h
      exact ⟨ok, parent', rest, hr, h.cons htops⟩
  | closed b after =>
    rw [hw] at h
    -- the closing tag of the parent
    obtain ⟨parent', rest, hr, h, hlex⟩ := h
    exact ⟨parent', rest, hr, h.cons htops, hlex⟩
  | mismatch =>
    rw [hw] at h
    -- a closing tag of another element
    obtain ⟨parent', rest, hr, h⟩ := h
    exact ⟨parent', rest, hr, h.cons htops⟩

/-- A call that returns has added the elements at the top. Of the endings only a fault does not
return, and each of the others names the elements. -/
theorem Ends.adds {isRoot ok : Bool} {parent parent' : LZData} {lex : TagLex} {rest : Text}
    (h : Ends isRoot parent lex (.returned ok parent' rest)) : Adds parent lex.kinds parent' := by
  rw [Ends] at h
  -- a fault returns no element
  cases hw : walk TagKind.bracket [] lex.kinds with
  | inside stack =>
    rw [hw] at h
    cases hf : lex.fault with
    | some f =>
      rw [hf] at h
      cases h
    | none =>
      rw [hf] at h
      obtain ⟨_, _, _, hr, h⟩ := h
      cases hr
      exact h
  | closed a after =>
    rw [hw] at h
    obtain ⟨_, _, hr, h, -⟩ := h
    cases hr
    exact h
  | mismatch =>
    rw [hw] at h
    obtain ⟨_, _, hr, h⟩ := h
    cases hr
    exact h

/-- The recursive call below an opened element has ended. If the element is not closed the call
ends with it, and otherwise it reads on behind the element. -/
theorem ends_opening (isRoot : Bool) (parent : LZData) {a value : Text} {lex : TagLex}
    {r : RestResult} :
    Ends false ⟨a, value, []⟩ lex r → match r with
    | .fault f => Ends isRoot parent (lex.cons (.opening a)) (.fault f)
    | .returned false node rest =>
      Ends isRoot parent (lex.cons (.opening a)) (.returned false (parent.addChild node) rest)
    | .returned true node rest => ∀ r',
      Ends isRoot (parent.addChild node) (lexTags (.between false) rest) r' →
        Ends isRoot parent (lex.cons (.opening a)) r' := by
  have hwalk : walk TagKind.bracket [] (lex.cons (.opening a)).kinds =
      walk TagKind.bracket ([] ++ [a]) lex.kinds := rfl
  have htops : tops TagKind.bracket [] (lex.cons (.opening a)).kinds =
      .opening a :: tops TagKind.bracket ([] ++ [a]) lex.kinds := rfl
  rw [walk_concat] at hwalk
  rw [tops_concat] at htops
  -- an element that is not closed is the last one at the top
  have hadds {node : LZData} (h : Adds ⟨a, value, []⟩ lex.kinds node)
      (htops : tops TagKind.bracket [] (lex.cons (.opening a)).kinds = [.opening a]) :
      Adds parent (lex.cons (.opening a)).kinds (parent.addChild node) := by
    refine (Adds.refl _).cons ?_
    rw [htops, h.1]
    rfl
  intro h
  rw [Ends] at h
  cases hread : walk TagKind.bracket [] lex.kinds with
  | inside stack =>
    rw [hread] at h hwalk htops
    cases hf : lex.fault with
    | some f =>
      rw [hf] at h
      subst h
      simp only [Ends, hwalk]
      simp only [TagLex.cons, hf]
    | none =>
      rw [hf] at h
      obtain ⟨ok, node, rest, rfl, hnode⟩ := h
      simp only [Bool.false_and, Ends, hwalk]
      simp only [TagLex.cons, hf]
      exact ⟨false, _, rest, by rw [Bool.and_false], hadds hnode htops⟩
  | mismatch =>
    rw [hread] at h hwalk htops
    obtain ⟨node, rest, rfl, hnode⟩ := h
    simp only [Ends, hwalk]
    exact ⟨_, rest, rfl, hadds hnode htops⟩
  | closed b after =>
    rw [hread] at h hwalk htops
    obtain ⟨node, rest, rfl, hnode, hlex⟩ := h
    by_cases hba : b = a
    · -- its own closing tag
      simp only [if_pos hba] at hwalk htops
      rw [decide_eq_true hba]
      intro r' hr'
      rw [hlex] at hr'
      refine Ends.cons ?_ hwalk ?_ hr'
      · rfl
      · rw [htops, hnode.1]
        rfl
    · simp only [if_neg hba] at hwalk htops
      rw [decide_eq_false hba]
      simp only [Ends, hwalk]
      exact ⟨_, rest, rfl, hadds hnode htops⟩

/-- A call ends as the tags of its text say. By induction on the length of the text, with a case for
each text that a pass tells apart. -/
theorem exists_ends (t : Text) (isRoot : Bool) (parent : LZData) :
    ∃ r, Reads isRoot parent t r ∧ Ends isRoot parent (lexTags (.between false) t) r := by
  -- on the length: the calls that read on are given a shorter text
  induction hn : t.length using Nat.strong_induction_on generalizing t isRoot parent with
  | _ n ih =>
  rcases text_cases t with ht | ⟨hopen, ht⟩ | ⟨u, w, v, rfl, hu, hu', hw⟩ |
    ⟨w, body, rest, rfl, hw, hw', hbody⟩
  -- no tag is left
  · rw [lexTags_noTag ht]
    exact ⟨_, Reads.noTag ht isRoot parent, true, parent, t, by rw [Bool.and_true], Adds.refl _⟩
  -- a tag without an end
  · rw [lexTags_noEnd hopen ht]
    exact ⟨_, Reads.noEnd hopen ht isRoot parent, false, parent, t, by rw [Bool.and_false],
      Adds.refl _⟩
  -- a stray end mark
  · rw [lexTags_stray hu hu' hw]
    exact ⟨_, ⟨1, parseRest_stray hu hu' hw ..⟩, rfl⟩
  have hlen : rest.length + 2 ≤ n := by
    simp only [List.length_append, List.length_cons] at hn
    omega
  rw [lexTags_tag hw hw' hbody]
  cases hkind : tagKind (trimString body) with
  | closing a => exact ⟨_, Reads.closing hw hw' hbody hkind rest, ends_closing isRoot parent a rest⟩
  | attr a =>
    obtain ⟨r, hr, hends⟩ := ih rest.length (by omega) rest isRoot (parent.addChild ⟨a, [], []⟩) rfl
    refine ⟨r, Reads.attr hw hw' hbody hkind hr, ?_⟩
    simp only [TagKind.after]
    refine Ends.cons ?_ ?_ ?_ hends
    · rfl
    · rfl
    · rfl
  | opening a =>
  simp only [TagKind.after]
  by_cases hnext : '<' ∈ rest
  · obtain ⟨content, after, rfl, hcontent⟩ := List.eq_append_cons_of_mem hnext
    rw [lexTags_content hcontent]
    have hlt : ('<' :: after).length < n := by
      simp only [List.length_append, List.length_cons] at hlen ⊢
      omega
    -- the recursive call below the opened element
    obtain ⟨r, hr, hends⟩ := ih _ hlt ('<' :: after) false ⟨a, trimString content, []⟩ rfl
    have hopening := ends_opening isRoot parent hends
    cases r with
    | fault f => exact ⟨_, Reads.opening_fault hw hw' hbody hkind hcontent hr, hopening⟩
    | returned ok node rest' =>
    cases ok with
    | false => exact ⟨_, Reads.opening_fails hw hw' hbody hkind hcontent hr, hopening⟩
    | true =>
      obtain ⟨r, hr', hends'⟩ := ih rest'.length (by have := hr.length_le; omega) rest' isRoot
        (parent.addChild node) rfl
      exact ⟨r, Reads.opening hw hw' hbody hkind hcontent hr hr', hopening r hends'⟩
  · rw [lexTags_content_last hnext]
    exact ⟨_, Reads.opening_last hw hw' hbody hkind hnext, false, _, rest,
      by rw [Bool.and_false], (Adds.refl _).cons rfl⟩

/-! ### The reads of an empty tag -/

/-- A call for an element reads its own closing tag exactly if it returns true. At the end of the
text and at another closing tag it returns false. -/
theorem Ends.closed_iff {parent : LZData} {lex : TagLex} {r : RestResult}
    (h : Ends false parent lex r) (after : List TagKind) :
    walk TagKind.bracket [] lex.kinds = .closed parent.tag after ↔
      ∃ node rest, r = .returned true node rest ∧
        (lexTags (.between false) rest).kinds = after := by
  rw [Ends] at h
  -- only the ending at a closing tag returns true to the parent
  cases hw : walk TagKind.bracket [] lex.kinds with
  | inside stack =>
    rw [hw] at h
    cases hf : lex.fault with
    | some f =>
      rw [hf] at h
      simp only [h, reduceCtorEq, false_and, exists_false]
    | none =>
      rw [hf] at h
      obtain ⟨ok, parent', rest, rfl, -⟩ := h
      simp only [Bool.false_and, RestResult.returned.injEq, Bool.false_eq_true, false_and,
        exists_false, reduceCtorEq]
  | mismatch =>
    rw [hw] at h
    obtain ⟨parent', rest, rfl, -⟩ := h
    simp only [RestResult.returned.injEq, Bool.false_eq_true, false_and, exists_false,
      reduceCtorEq]
  | closed a after' =>
    rw [hw] at h
    obtain ⟨parent', rest, rfl, -, hlex⟩ := h
    simp only [Walk.closed.injEq, RestResult.returned.injEq, decide_eq_true_eq]
    constructor
    -- the closing tag matches the name of the parent
    · rintro ⟨ha, rfl⟩
      exact ⟨parent', rest, ⟨ha, rfl, rfl⟩, by rw [hlex]⟩
    · rintro ⟨_, _, ⟨ha, rfl, rfl⟩, hafter⟩
      rw [hlex] at hafter
      exact ⟨ha, hafter⟩

/-- A stream in front of a tag: what the searches find, the text between the two, and what is left
behind them. -/
theorem stream_tag {s : WrapperStream} {w body rest : Text} (hw : '<' ∉ w) (hw' : '>' ∉ w)
    (hbody : '>' ∉ body) (h : s.rest = w ++ '<' :: (body ++ '>' :: rest)) :
    ∃ b e, s.find '<' = some b ∧ s.find '>' = some e ∧
      (s.seek (e + 1)).getRange [] (b + 1) e = .ok (true, body) ∧
      (s.seek (e + 1)).rest = rest := by
  -- the first '>' is the one of this tag
  have hwb : '>' ∉ w ++ '<' :: body := by
    simp only [List.mem_append, List.mem_cons, hw', hbody, or_false, false_or]
    decide
  have hsplit : s.rest = (w ++ '<' :: body) ++ '>' :: rest := by
    rw [h, List.append_assoc, List.cons_append]
  have hend : findFirstOf s.rest '>' = some (w ++ '<' :: body).length := by
    rw [hsplit, findFirstOf_append_cons hwb]
  -- the two positions, what stands between them, and the rest
  refine ⟨s.index + w.length, s.index + (w ++ '<' :: body).length, ?_, ?_, ?_, ?_⟩
  · rw [WrapperStream.find_eq, h, findFirstOf_append_cons hw]
    rfl
  · rw [WrapperStream.find_eq, hend]
    rfl
  · rw [WrapperStream.getRange_seek, Nat.add_assoc,
      WrapperStream.getRange_eq s (findFirstOf_lt hend), if_neg, hsplit, List.take_left,
      drop_length_succ]
    rw [List.length_append, List.length_cons]
    omega
  · rw [Nat.add_assoc, WrapperStream.rest_seek, hsplit, drop_length_succ]

/-- A stream in front of a value: where the next tag is, the text before it, and what is left
there. -/
theorem stream_content {s : WrapperStream} {content after : Text} (hcontent : '<' ∉ content)
    (h : s.rest = content ++ '<' :: after) :
    ∃ n, s.find '<' = some n ∧ (s.seek n).getRange [] s.index n = .ok (true, content) ∧
      (s.seek n).rest = '<' :: after := by
  have hnext : findFirstOf s.rest '<' = some content.length := by
    rw [h, findFirstOf_append_cons hcontent]
  refine ⟨s.index + content.length, ?_, ?_, ?_⟩
  · rw [WrapperStream.find_eq, hnext]
    rfl
  · rw [WrapperStream.getRange_seek, WrapperStream.getRange_index s (findFirstOf_lt hnext), h,
      List.take_left]
  · rw [WrapperStream.rest_seek, h, List.drop_left]

/-- With fuel for the text that is left, a call returns what the rules read. -/
theorem parseReal_eq_of_reads {fuel : Nat} {isRoot : Bool} {parent : LZData} {s : WrapperStream}
    {r : RestResult} (hfuel : s.rest.length < fuel) (h : Reads isRoot parent s.rest r) :
    (parseReal fuel isRoot parent s).map ParseResult.toRest = some r := by
  rw [parseReal_toRest]
  rcases parseRest_isSome hfuel isRoot parent with ⟨f, hr⟩ | ⟨ok, parent', rest, hr, -⟩
  · rw [hr, parseRest_fuelMono.unique h ⟨fuel, hr⟩]
  · rw [hr, parseRest_fuelMono.unique h ⟨fuel, hr⟩]

/-- A call reads an empty tag exactly if a blank tag is reached. By induction on the fuel, along the
cases of the text in front of the next tag and those of the tag itself. -/
theorem firstChar_nil_mem_accesses_iff {fuel : Nat} {s : WrapperStream}
    (hfuel : s.rest.length < fuel) (isRoot : Bool) (parent : LZData) :
    .firstChar [] ∈ accesses fuel isRoot parent s ↔
      Reaches TagKind.bracket (.opening []) [] (lexTags (.between false) s.rest).kinds := by
  induction fuel generalizing s isRoot parent with
  | zero => exact absurd hfuel (Nat.not_lt_zero _)
  | succ fuel ih =>
    rcases text_cases s.rest with ht | ⟨hopen, ht⟩ | ⟨u, w, v, h, hu, hu', hw⟩ |
      ⟨w, body, rest, h, hw, hw', hbody⟩
    -- no tag is left
    · rw [lexTags_noTag ht, accesses, WrapperStream.find_eq, findFirstOf_eq_none.mpr ht]
      simp only [not_reaches_nil, iff_false]
      split <;> exact List.not_mem_nil
    -- a tag without an end
    · rw [lexTags_noEnd hopen ht, accesses, WrapperStream.find_eq s '>',
        findFirstOf_eq_none.mpr ht]
      simp only [not_reaches_nil, iff_false]
      split
      · exact List.not_mem_nil
      · cases s.find '<' <;> exact List.not_mem_nil
    -- a stray end mark
    · have hb : s.find '<' = some (s.index + (u ++ '>' :: w).length) := by
        rw [WrapperStream.find_eq, h, ← List.cons_append, ← List.append_assoc,
          findFirstOf_append_cons]
        · rfl
        · simp only [List.mem_append, List.mem_cons, hu, hw, or_false, false_or]
          decide
      have he : s.find '>' = some (s.index + u.length) := by
        rw [WrapperStream.find_eq, h, findFirstOf_append_cons hu']
        rfl
      have hnonempty : ¬ s.empty = true := by
        intro hempty
        rw [WrapperStream.rest_eq_nil_of_empty hempty] at h
        simp only [List.nil_eq, List.append_eq_nil_iff, reduceCtorEq, and_false] at h
      have hget : s.getRange [] (s.index + (u ++ '>' :: w).length + 1) (s.index + u.length) =
          .error .lengthError := by
        rcases getRange_of_le (Nat.le_of_lt (find_bounds he).2) with ⟨-, hget⟩ | ⟨hle, -⟩
        · exact hget
        · rw [List.length_append] at hle
          omega
      rw [h, lexTags_stray hu hu' hw, accesses, if_neg hnonempty, hb, he]
      simp only [WrapperStream.getRange_seek, hget, List.mem_singleton, reduceCtorEq,
        not_reaches_nil]
    have hnonempty : ¬ s.empty = true := by
      intro hempty
      rw [WrapperStream.rest_eq_nil_of_empty hempty] at h
      simp only [List.nil_eq, List.append_eq_nil_iff, reduceCtorEq, and_false] at h
    obtain ⟨b, e, hb, he, hget, hrest⟩ := stream_tag hw hw' hbody h
    have hlen : rest.length + 2 ≤ s.rest.length := by
      rw [h]
      simp only [List.length_append, List.length_cons]
      omega
    rw [h, lexTags_tag hw hw' hbody, accesses, if_neg hnonempty, hb, he]
    simp only [hget, List.mem_cons, reduceCtorEq, false_or, Access.firstChar.injEq]
    clear hget
    generalize s.seek (e + 1) = s' at hrest ⊢
    subst hrest
    -- an empty tag opens an element
    have hblank : tagKind (trimString body) ≠ .opening [] → [] ≠ trimString body := by
      intro hne heq
      rw [← heq] at hne
      exact hne tagKind_nil
    simp only [TagLex.cons]
    cases hkind : tagKind (trimString body) with
    | closing a =>
      rw [reaches_closing_nil (show TagKind.bracket (.closing a) = .closing a from rfl)]
      simp only [hblank (by rw [hkind]; simp), reduceCtorEq, List.not_mem_nil, or_self]
    | attr a =>
      rw [reaches_atom (show TagKind.bracket (.attr a) = .atom from rfl), ih (by omega)]
      simp only [hblank (by rw [hkind]; simp), reduceCtorEq, false_or, TagKind.after]
    | opening a =>
    obtain rfl := tagKind_eq_opening hkind
    rw [reaches_opening (show TagKind.bracket (.opening (trimString body)) = .opening _ from rfl),
      TagKind.opening.injEq]
    refine or_congr_right ?_
    simp only [TagKind.after]
    by_cases hnext : '<' ∈ s'.rest
    · obtain ⟨content, after, hs', hcontent⟩ := List.eq_append_cons_of_mem hnext
      obtain ⟨n, hn, hvalue, hrest⟩ := stream_content hcontent hs'
      rw [hs', lexTags_content hcontent, ← List.nil_append [trimString body], reaches_concat,
        ← hrest, hn]
      simp only [hvalue, List.mem_cons, reduceCtorEq, false_or, List.mem_append]
      have hlen' : (s'.seek n).rest.length ≤ s'.rest.length := by
        rw [hrest, hs', List.length_append]
        omega
      clear hvalue hrest
      generalize s'.seek n = t at hlen' ⊢
      -- the children are read to the closing tag of the element, and the loop goes on behind it
      obtain ⟨r, hr, hends⟩ := exists_ends t.rest false ⟨trimString body, trimString content, []⟩
      have hfuel : t.rest.length < fuel := by omega
      have hparse := parseReal_eq_of_reads hfuel hr
      refine or_congr (ih (by omega) _ _) ?_
      simp only [hends.closed_iff]
      cases hchild : parseReal fuel false ⟨trimString body, trimString content, []⟩ t with
      | none =>
        rw [hchild] at hparse
        cases hparse
      | some result =>
      rw [hchild, Option.map_some, Option.some.injEq] at hparse
      subst hparse
      cases result with
      | fault f =>
        simp only [ParseResult.toRest, reduceCtorEq, false_and, exists_false, List.not_mem_nil]
      | returned ok node t' =>
      have hle := hr.length_le
      cases ok with
      | false =>
        simp only [ParseResult.toRest, RestResult.returned.injEq, Bool.false_eq_true, false_and,
          exists_false, List.not_mem_nil]
      | true =>
        rw [ih (by omega)]
        simp only [ParseResult.toRest, RestResult.returned.injEq, true_and]
        constructor
        · intro h
          exact ⟨_, ⟨_, _, ⟨rfl, rfl⟩, rfl⟩, h⟩
        · rintro ⟨_, ⟨_, _, ⟨rfl, rfl⟩, rfl⟩, h⟩
          exact h
    · have hn : s'.find '<' = none := by
        rw [WrapperStream.find_eq, findFirstOf_eq_none.mpr hnext]
        rfl
      rw [lexTags_content_last hnext, hn]
      simp only [List.not_mem_nil, not_reaches_nil]

/-! ### The reachable faults -/

/-- The tags of these kinds do not close more than they open: they can be continued to a
properly nested sequence. -/
def Nests (kinds : List TagKind) : Prop := ∃ us, Nested (kinds.map TagKind.bracket ++ us)

/-- `parse` returns exactly if it does not reach a place where it cannot go on. The fault is behind
all tags, so it is reached if the walk over the tags is not over before. -/
theorem parse_returned_iff (s : WrapperStream) (parent : Option LZData) :
    (∃ ok root s', parse s parent = some (.returned ok root s')) ↔
      (lexTags (.between false) s.rest).fault = none ∨
        ¬ Nests (lexTags (.between false) s.rest).kinds := by
  -- the parse over the text behind the position ends as the walk says
  obtain ⟨r, hr, hends⟩ := exists_ends s.rest true (parent.getD ⟨rootTag, [], []⟩)
  rw [Ends] at hends
  rw [Nests, ← exists_walk_inside_iff]
  have hreturned {ok : Bool} {root : LZData} {rest : Text} (h : r = .returned ok root rest) :
      ∃ ok root s', parse s parent = some (.returned ok root s') := by
    subst h
    obtain ⟨s', h, -⟩ := parse_eq_returned s parent hr
    exact ⟨ok, root, s', h⟩
  -- inside all along: the fault of the text, if there is one, is reached
  cases hw : walk TagKind.bracket [] (lexTags (.between false) s.rest).kinds with
  | inside stack =>
    rw [hw] at hends
    cases hf : (lexTags (.between false) s.rest).fault with
    | none =>
      rw [hf] at hends
      obtain ⟨ok, root, rest, h, -⟩ := hends
      exact iff_of_true (hreturned h) (.inl rfl)
    | some f =>
      -- the text has a fault
      rw [hf] at hends
      simp only [] at hends
      subst hends
      have hparse := parse_toRest s parent hr
      refine iff_of_false ?_ ?_
      · rintro ⟨ok, root, s', h⟩
        rw [h] at hparse
        simp only [Option.map_some, ParseResult.toRest, Option.some.injEq, reduceCtorEq] at hparse
      · simp only [reduceCtorEq, Walk.inside.injEq, exists_eq', not_true_eq_false, or_self,
          not_false_eq_true]
  -- the walk ends before the fault, which is not reached then
  | closed a after =>
    rw [hw] at hends
    obtain ⟨root, rest, h, -⟩ := hends
    refine iff_of_true (hreturned h) (.inr ?_)
    simp only [reduceCtorEq, exists_false, not_false_eq_true]
  | mismatch =>
    rw [hw] at hends
    obtain ⟨root, rest, h, -⟩ := hends
    refine iff_of_true (hreturned h) (.inr ?_)
    simp only [reduceCtorEq, exists_false, not_false_eq_true]

/-- The accesses of `parse` stay in the buffer exactly if it returns. -/
theorem accesses_inBuffer_iff (s : WrapperStream) (parent : Option LZData) :
    (∀ a ∈ parseAccesses s parent, a.InBuffer s.size) ↔
      ∃ ok root s', parse s parent = some (.returned ok root s') := by
  obtain ⟨r, hr⟩ := Option.isSome_iff_exists.mp (parse_isSome s parent)
  have hchecked := checked_accesses hr
  rw [hr]
  cases r with
  | returned ok root s' => exact iff_of_true hchecked.2 ⟨ok, root, s', rfl⟩
  | fault f =>
    refine iff_of_false hchecked ?_
    rintro ⟨ok, root, s', h⟩
    cases h

/-- `parse` reads an empty tag exactly if the tags in front of some blank tag nest. -/
theorem firstChar_nil_mem_parseAccesses_iff (s : WrapperStream) (parent : Option LZData) :
    .firstChar [] ∈ parseAccesses s parent ↔
      ∃ pre post, (lexTags (.between false) s.rest).kinds = pre ++ .opening [] :: post ∧
        Nests pre := by
  have hlen : s.rest.length < s.size + 1 := by
    rw [WrapperStream.length_rest]
    omega
  rw [parseAccesses, firstChar_nil_mem_accesses_iff hlen, Reaches]
  simp only [exists_walk_inside_iff, Nests]

/-- `parse` always ends. Its accesses are safe exactly if it meets no blank tag and no stray end
mark: wherever one stands, the tags before it do not nest, so that the parser has given up before. A
blank tag is read at its first character, which it does not have, and a stray end mark leads to a
range with its end before its beginning. -/
theorem accesses_safe_iff (s : WrapperStream) (parent : Option LZData) :
    (parse s parent).isSome = true ∧
      ((∀ a ∈ parseAccesses s parent, a.Safe s.size) ↔
        (∀ pre post, (lexTags (.between false) s.rest).kinds = pre ++ .opening [] :: post →
          ¬ Nests pre) ∧
        ((lexTags (.between false) s.rest).fault = none ∨
          ¬ Nests (lexTags (.between false) s.rest).kinds)) := by
  refine ⟨parse_isSome s parent, ?_⟩
  have hblank := firstChar_nil_mem_parseAccesses_iff s parent
  rw [← parse_returned_iff s parent, ← accesses_inBuffer_iff]
  simp only [Access.safe_iff]
  constructor
  · intro hsafe
    refine ⟨fun pre post hkinds hnests => ?_, fun a ha => (hsafe a ha).1⟩
    exact (hsafe _ (hblank.mpr ⟨pre, post, hkinds, hnests⟩)).2 rfl
  · rintro ⟨hnone, hsafe⟩ a ha
    refine ⟨hsafe a ha, ?_⟩
    rintro rfl
    obtain ⟨pre, post, hkinds, hnests⟩ := hblank.mp ha
    exact hnone pre post hkinds hnests

/-- An end mark between two elements. The next begin mark stands behind it, so the range of the tag
has its end in front of its beginning. -/
theorem accesses_not_safe_stray :
    let s := WrapperStream.ofText "<a></a>><b></b>".toList
    ¬ ((parse s none).isSome = true ∧ ∀ a ∈ parseAccesses s none, a.Safe s.size) := by
  intro s h
  have hmem : Access.range 9 7 ∈ parseAccesses s none := by decide
  exact absurd (h.2 _ hmem).1 (by decide)

end XmlParser

end OnlineJudger
