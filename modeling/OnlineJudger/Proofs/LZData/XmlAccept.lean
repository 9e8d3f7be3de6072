import OnlineJudger.Proofs.LZData.XmlRest
import OnlineJudger.Lib.Bracket

/-!
# `OnlineJudger.Proofs.LZData.XmlAccept`: which texts the xml parser accepts

`scanTags` reads a text as a row of tags and knows nothing of elements. `brackets` turns the
tags into brackets, and `Balanced` says that every tag has an end and that the brackets are
properly nested.

* `exists_outcome`: what `parseReal` returns below any parent, in terms of the brackets. The
  recursive call for an element reads the brackets up to its closing tag, and
  `descend_concat` says what follows.
* `accepts_iff_balanced_iff`: `parse` accepts exactly the balanced texts as long as no
  closing tag with the name of the implicit root follows a nested prefix. With such a tag
  the text is accepted as far as that tag, although the tag closes nothing.
-/

set_option autoImplicit false

namespace OnlineJudger

open Lib

namespace XmlParser

/-! ### The tags of a text -/

/-- The tags of a text. -/
structure TagScan where
  /-- The trimmed tags, in order. -/
  tokens : List Text
  /-- Every tag has an end mark. -/
  terminated : Bool
  /-- Every end mark ends a tag. -/
  clean : Bool
  deriving DecidableEq, Repr

/-- Read the tags of a text. The option holds the part of a tag that is read already. An end mark
outside of a tag is noted, and the reading goes on. -/
def scanTags : Option Text → Text → TagScan
  | none, [] => ⟨[], true, true⟩
  | some _, [] => ⟨[], false, true⟩
  | none, ch :: t =>
    if ch = '<' then scanTags (some []) t
    else if ch = '>' then { scanTags none t with clean := false }
    else scanTags none t
  | some body, ch :: t =>
    if ch = '>' then
      { scanTags none t with tokens := trimString body :: (scanTags none t).tokens }
    else scanTags (some (body ++ [ch])) t

/-- A token as a bracket. A tag that is an element of its own is an atom. -/
def bracketOf (token : Text) : Bracket Text :=
  if token.head? = some '/' then .closing (rtrimString (token.drop 1))
  else if token.length > 1 ∧ token.getLast? = some '/' then .atom
  else .opening token

/-- The brackets of a text. -/
def brackets (t : Text) : List (Bracket Text) := (scanTags none t).tokens.map bracketOf

/-- No end mark is stray, and no tag is blank. -/
def WellScanned (t : Text) : Prop :=
  (scanTags none t).clean = true ∧ ∀ token ∈ (scanTags none t).tokens, token ≠ []

/-- Every tag has an end mark, and the tags are properly nested. -/
def Balanced (t : Text) : Prop := (scanTags none t).terminated = true ∧ Nested (brackets t)

/-- `parse` without a parent returns true. -/
def Accepts (t : Text) : Prop :=
  ∃ root s, parse (.ofText t) none = some (.returned true root s)

/-- Between two tags, only the brackets count. -/
theorem scanTags_skip {w : Text} (hw : '<' ∉ w) (hw' : '>' ∉ w) (t : Text) :
    scanTags none (w ++ t) = scanTags none t := by
  induction w with
  | nil => rfl
  | cons ch w ih =>
    rw [List.mem_cons, not_or] at hw hw'
    rw [List.cons_append, scanTags, if_neg (Ne.symm hw.1), if_neg (Ne.symm hw'.1), ih hw.2 hw'.2]

/-- An end mark in front of the next tag. -/
theorem scanTags_stray {u : Text} (hu : '<' ∉ u) (hu' : '>' ∉ u) (t : Text) :
    (scanTags none (u ++ '>' :: t)).clean = false := by
  rw [scanTags_skip hu hu', scanTags, if_neg (by decide), if_pos rfl]

/-- A tag is read up to its end mark. -/
theorem scanTags_body {body : Text} (h : '>' ∉ body) (acc rest : Text) :
    scanTags (some acc) (body ++ '>' :: rest) =
      { scanTags none rest with tokens := trimString (acc ++ body) ::
        (scanTags none rest).tokens } := by
  induction body generalizing acc with
  | nil => rw [List.nil_append, scanTags, if_pos rfl, List.append_nil]
  | cons ch body ih =>
    rw [List.mem_cons, not_or] at h
    rw [List.cons_append, scanTags, if_neg (Ne.symm h.1), ih h.2, List.append_assoc,
      List.singleton_append]

/-- A tag without an end mark is no token. -/
theorem scanTags_unterminated {v : Text} (h : '>' ∉ v) (acc : Text) :
    scanTags (some acc) v = ⟨[], false, true⟩ := by
  induction v generalizing acc with
  | nil => rfl
  | cons ch v ih =>
    rw [List.mem_cons, not_or] at h
    rw [scanTags, if_neg (Ne.symm h.1), ih h.2]

/-- The first tag of a text. -/
theorem scanTags_tag {w body : Text} (hw : '<' ∉ w) (hw' : '>' ∉ w) (hbody : '>' ∉ body)
    (rest : Text) :
    scanTags none (w ++ '<' :: (body ++ '>' :: rest)) =
      { scanTags none rest with tokens := trimString body :: (scanTags none rest).tokens } := by
  rw [scanTags_skip hw hw', scanTags, if_pos rfl, scanTags_body hbody, List.nil_append]

/-- A text without a tag. -/
theorem scanTags_noTag {t : Text} (h : '<' ∉ t) (hclean : (scanTags none t).clean = true) :
    scanTags none t = ⟨[], true, true⟩ := by
  by_cases h' : '>' ∈ t
  · obtain ⟨u, v, rfl, hu'⟩ := List.eq_append_cons_of_mem h'
    have hu : '<' ∉ u := fun hmem => h (List.mem_append_left _ hmem)
    rw [scanTags_stray hu hu'] at hclean
    exact absurd hclean (by decide)
  · have := scanTags_skip h h' []
    rw [List.append_nil] at this
    exact this

/-- The text between an opening tag and the next tag does not count. -/
theorem scanTags_content {content : Text} (h : '<' ∉ content) {rest : Text}
    (hclean : (scanTags none (content ++ '<' :: rest)).clean = true) :
    scanTags none (content ++ '<' :: rest) = scanTags none ('<' :: rest) := by
  by_cases h' : '>' ∈ content
  · obtain ⟨u, v, rfl, hu'⟩ := List.eq_append_cons_of_mem h'
    have hu : '<' ∉ u := fun hmem => h (List.mem_append_left _ hmem)
    rw [List.append_assoc, List.cons_append, scanTags_stray hu hu'] at hclean
    exact absurd hclean (by decide)
  · exact scanTags_skip h h' _

/-- The tests of the parser on a tag. `bracketOf` reads a tag by its slashes only, and this is where
the two readings meet. -/
theorem tagKind_of_bracketOf (token : Text) :
    match bracketOf token with
    | .opening tag => tagKind token = .opening tag
    | .closing tag => tagKind token = .closing tag
    | .atom => ∃ tag, tagKind token = .attr tag := by
  unfold bracketOf tagKind
  simp only [firstChar_eq_slash]
  by_cases hhead : token.head? = some '/'
  · simp only [if_pos hhead]
  · simp only [if_neg hhead]
    by_cases hlast : token.length > 1 ∧ token.getLast? = some '/'
    · have hlast' : token.length - 1 > 0 ∧ token.getLast? = some '/' :=
        ⟨Nat.sub_pos_of_lt hlast.1, hlast.2⟩
      simp only [if_pos hlast, if_pos hlast']
      cases findFirstOf token ' ' with
      | none => exact ⟨_, rfl⟩
      | some pos => exact ⟨_, rfl⟩
    · have hlast' : ¬ (token.length - 1 > 0 ∧ token.getLast? = some '/') :=
        fun h => hlast ⟨Nat.lt_of_sub_pos h.1, h.2⟩
      simp only [if_neg hlast, if_neg hlast']

/-! ### What a call returns -/

/-- What a call returns below a parent with the tag `tag`, when the brackets are read to `d`.
`terminated` says that every tag of the text has an end mark. -/
def Outcome (isRoot terminated : Bool) (tag : Text) : Descent Text → RestResult → Prop
  | .exhausted, r => ∃ parent rest, r = .returned (isRoot && terminated) parent rest
  | .closed a after, r => ∃ parent rest, r = .returned (a = tag) parent rest ∧
      WellScanned rest ∧ brackets rest = after ∧ (scanTags none rest).terminated = terminated
  | .failed, r => ∃ parent rest, r = .returned false parent rest

/-- The text behind the first tag, in which the parser goes on. -/
theorem WellScanned.tail {w body rest : Text} (hw : '<' ∉ w) (hw' : '>' ∉ w) (hbody : '>' ∉ body)
    (h : WellScanned (w ++ '<' :: (body ++ '>' :: rest))) :
    WellScanned rest := by
  unfold WellScanned at h
  rw [scanTags_tag hw hw' hbody] at h
  exact ⟨h.1, fun token ht => h.2 token (List.mem_cons_of_mem _ ht)⟩

/-- The recursive call below an opened element has ended. If the element is not closed the call
ends with it, and otherwise it reads on behind the element. -/
theorem outcome_opening (isRoot terminated : Bool) (parent : LZData) {a value : Text}
    {ts : List (Bracket Text)} {r : RestResult} :
    Outcome false terminated (LZData.mk a value []).tag (descend [] ts) r → match r with
    | .fault _ => False
    | .returned false node rest =>
      Outcome isRoot terminated parent.tag (descend [a] ts)
        (.returned false (parent.addChild node) rest)
    | .returned true _ rest => WellScanned rest ∧ ∀ r',
      Outcome isRoot (scanTags none rest).terminated parent.tag (descend [] (brackets rest)) r' →
        Outcome isRoot terminated parent.tag (descend [a] ts) r' := by
  rw [← List.nil_append [a], descend_concat]
  intro hout
  cases hd : descend [] ts with
  | exhausted =>
    rw [hd] at hout
    obtain ⟨node, rest, rfl⟩ := hout
    exact ⟨_, _, rfl⟩
  | failed =>
    rw [hd] at hout
    obtain ⟨node, rest, rfl⟩ := hout
    exact ⟨_, _, rfl⟩
  | closed b after =>
    rw [hd] at hout
    obtain ⟨node, rest, rfl, hrest, rfl, rfl⟩ := hout
    -- the call ended at a closing tag: its own, or one that does not match
    by_cases hba : b = a
    · rw [decide_eq_true hba]
      simp only [if_pos hba]
      exact ⟨hrest, fun r' hr' => hr'⟩
    · rw [decide_eq_false hba]
      simp only [if_neg hba]
      exact ⟨_, _, rfl⟩

/-- A call returns what the brackets of its text say. By induction on the length of the text: the
element behind an opening tag is read by a call on a shorter one, and so is what is behind the
element. -/
theorem exists_outcome (t : Text) (h : WellScanned t) (isRoot : Bool) (parent : LZData) :
    ∃ r, Reads isRoot parent t r ∧
      Outcome isRoot (scanTags none t).terminated parent.tag (descend [] (brackets t)) r := by
  -- on the length: the calls that read on are given a shorter text
  induction hn : t.length using Nat.strong_induction_on generalizing t isRoot parent with
  | _ n ih =>
  rcases text_cases t with ht | ⟨hopen, ht⟩ | ⟨u, w, v, rfl, hu, hu', hw⟩ |
    ⟨w, body, rest, rfl, hw, hw', hbody⟩
  -- no tag is left
  · rw [brackets, scanTags_noTag ht h.1]
    exact ⟨_, Reads.noTag ht isRoot parent, parent, t, by rw [Bool.and_true]⟩
  -- a tag without an end
  · have hscan : scanTags none t = ⟨[], false, true⟩ := by
      obtain ⟨w, v, rfl, hw⟩ := List.eq_append_cons_of_mem hopen
      rw [List.mem_append, List.mem_cons, not_or, not_or] at ht
      rw [scanTags_skip hw ht.1, scanTags, if_pos rfl, scanTags_unterminated ht.2.2]
    rw [brackets, hscan]
    exact ⟨_, Reads.noEnd hopen ht isRoot parent, parent, t, by rw [Bool.and_false]⟩
  -- a stray end mark is ruled out
  · have := h.1
    rw [scanTags_stray hu hu'] at this
    exact absurd this (by decide)
  have hrest := h.tail hw hw' hbody
  have hlen : rest.length + 2 ≤ n := by
    simp only [List.length_append, List.length_cons] at hn
    omega
  have hterm : (scanTags none (w ++ '<' :: (body ++ '>' :: rest))).terminated =
      (scanTags none rest).terminated := by
    rw [scanTags_tag hw hw' hbody]
  have hbrackets : brackets (w ++ '<' :: (body ++ '>' :: rest)) =
      bracketOf (trimString body) :: brackets rest := by
    rw [brackets, scanTags_tag hw hw' hbody, List.map_cons, brackets]
  have hkind := tagKind_of_bracketOf (trimString body)
  rw [hterm, hbrackets]
  cases hb : bracketOf (trimString body) with
  | closing a =>
    rw [hb] at hkind
    exact ⟨_, Reads.closing hw hw' hbody hkind rest, parent, rest, rfl, hrest, rfl, rfl⟩
  | atom =>
    rw [hb] at hkind
    obtain ⟨tag, hkind⟩ := hkind
    obtain ⟨r, hr, hout⟩ := ih rest.length (by omega) rest hrest isRoot
      (parent.addChild ⟨tag, [], []⟩) rfl
    rw [descend_atom]
    exact ⟨r, Reads.attr hw hw' hbody hkind hr, hout⟩
  | opening a =>
  rw [hb] at hkind
  rw [descend_opening]
  by_cases hnext : '<' ∈ rest
  · obtain ⟨content, after, rfl, hcontent⟩ := List.eq_append_cons_of_mem hnext
    have hscan := scanTags_content hcontent hrest.1
    have hlt : ('<' :: after).length < n := by
      simp only [List.length_append, List.length_cons] at hlen ⊢
      omega
    -- the recursive call below the opened element
    obtain ⟨r, hr, hout⟩ := ih _ hlt ('<' :: after) (by rw [WellScanned, ← hscan]; exact hrest)
      false ⟨a, trimString content, []⟩ rfl
    rw [brackets, ← hscan, ← brackets] at hout
    have hopening := outcome_opening isRoot _ parent hout
    cases r with
    | fault f => exact hopening.elim
    | returned ok node rest' =>
    cases ok with
    | false => exact ⟨_, Reads.opening_fails hw hw' hbody hkind hcontent hr, hopening⟩
    | true =>
      obtain ⟨hrest', hopening⟩ := hopening
      obtain ⟨r, hr', hout'⟩ := ih rest'.length (by have := hr.length_le; omega) rest' hrest'
        isRoot (parent.addChild node) rfl
      exact ⟨r, Reads.opening hw hw' hbody hkind hcontent hr hr', hopening r hout'⟩
  · rw [brackets, scanTags_noTag hnext hrest.1]
    exact ⟨_, Reads.opening_last hw hw' hbody hkind hnext, _, _, rfl⟩

/-! ### The accepted texts -/

/-- A closing tag with the name of the implicit root follows a nested prefix: it closes no
element that the text opens. -/
def ClosesRoot (t : Text) : Prop :=
  ∃ xs after, Nested xs ∧ brackets t = xs ++ .closing rootTag :: after

/-- The same in terms of the reading with a stack. -/
theorem closesRoot_iff (t : Text) :
    ClosesRoot t ↔ ∃ after, descend [] (brackets t) = .closed rootTag after := by
  constructor
  · rintro ⟨xs, after, hxs, heq⟩
    exact ⟨after, (descend_eq_closed_iff _ _ _).mpr ⟨xs, hxs, heq⟩⟩
  · rintro ⟨after, h⟩
    obtain ⟨xs, hxs, heq⟩ := (descend_eq_closed_iff _ _ _).mp h
    exact ⟨xs, after, hxs, heq⟩

/-- `parse` accepts a text exactly when the call for the root returns true. -/
theorem accepts_iff_returned {t : Text} {r : RestResult} (hr : Reads true ⟨rootTag, [], []⟩ t r) :
    Accepts t ↔ ∃ parent rest, r = .returned true parent rest := by
  rw [← WrapperStream.rest_ofText t] at hr
  constructor
  · rintro ⟨root, s, hparse⟩
    have := parse_toRest (.ofText t) none hr
    rw [hparse, Option.map_some, Option.some.injEq] at this
    exact ⟨root, s.rest, this.symm⟩
  · rintro ⟨parent, rest, rfl⟩
    obtain ⟨s, hparse, -⟩ := parse_eq_returned (.ofText t) none hr
    exact ⟨parent, s, hparse⟩

/-- `parse` accepts the balanced texts and those that close the implicit root. The call for the root
returns true at the end of the text, or at a closing tag with the name of the root. -/
theorem accepts_iff (t : Text) (h : WellScanned t) : Accepts t ↔ Balanced t ∨ ClosesRoot t := by
  obtain ⟨r, hr, hout⟩ := exists_outcome t h true ⟨rootTag, [], []⟩
  rw [accepts_iff_returned hr, Balanced, nested_iff_descend, closesRoot_iff]
  cases hd : descend [] (brackets t) with
  | exhausted =>
    rw [hd] at hout
    obtain ⟨parent, rest, rfl⟩ := hout
    simp only [Bool.true_and, RestResult.returned.injEq, exists_and_left, exists_eq', and_true,
      reduceCtorEq, exists_false, or_false]
  | failed =>
    rw [hd] at hout
    obtain ⟨parent, rest, rfl⟩ := hout
    simp only [RestResult.returned.injEq, Bool.false_eq_true, false_and, exists_false,
      reduceCtorEq, and_false, or_false]
  | closed a after =>
    rw [hd] at hout
    obtain ⟨parent, rest, rfl, -⟩ := hout
    simp only [RestResult.returned.injEq, decide_eq_true_eq, exists_and_left, exists_eq', and_true,
      reduceCtorEq, and_false, Descent.closed.injEq, false_or]

/-- `parse` accepts exactly the balanced texts as long as the text does not close the implicit root.
The parser starts in a node of its own, whose tag a text may name: a closing tag of this name at the
top ends the parse with success, and the rest of the text is not looked at. -/
theorem accepts_iff_balanced_iff (t : Text) (hclean : (scanTags none t).clean = true)
    (hblank : ∀ token ∈ (scanTags none t).tokens, token ≠ []) :
    (Accepts t ↔ Balanced t) ↔ ¬ ClosesRoot t := by
  have hnot : ClosesRoot t → ¬ Balanced t := by
    rw [closesRoot_iff, Balanced, nested_iff_descend]
    rintro ⟨after, hd⟩ ⟨-, hd'⟩
    rw [hd] at hd'
    simp only [reduceCtorEq] at hd'
  rw [accepts_iff t ⟨hclean, hblank⟩]
  constructor
  · intro hiff hcloses
    exact hnot hcloses (hiff.mp (.inr hcloses))
  · intro hcloses
    exact ⟨fun h => h.resolve_right hcloses, .inl⟩

/-- Two elements in a third one and a closing tag `/root` for one of them: the text is balanced,
nothing closes the implicit root, and so it is accepted. -/
theorem accepts_iff_balanced_nested :
    let t := "<a><root>1</root><b><c x=1/></b></a>".toList
    ¬ ClosesRoot t ∧ Balanced t ∧ Accepts t := by
  intro t
  have hread : descend [] (brackets t) = .exhausted := by decide
  have hcloses : ¬ ClosesRoot t := by
    rw [closesRoot_iff, hread]
    simp only [reduceCtorEq, exists_false, not_false_eq_true]
  have hbalanced : Balanced t := ⟨by decide, (nested_iff_descend _).mpr hread⟩
  exact ⟨hcloses, hbalanced,
    ((accepts_iff_balanced_iff t (by decide) (by decide)).mpr hcloses).mpr hbalanced⟩

/-- A closing tag alone is accepted, with the rest of the text unread. No element of this name was
ever opened. -/
theorem accepts_unopened_root :
    let t := "</root><a>".toList
    ((scanTags none t).clean = true ∧ ∀ token ∈ (scanTags none t).tokens, token ≠ []) ∧
      ¬ (Accepts t ↔ Balanced t) := by
  intro t
  refine ⟨by decide, ?_⟩
  have haccept : Accepts t := ⟨_, _, rfl⟩
  have hbalanced : ¬ Balanced t := by
    rw [Balanced, nested_iff_descend]
    decide
  intro h
  exact hbalanced (h.mp haccept)

end XmlParser

end OnlineJudger
