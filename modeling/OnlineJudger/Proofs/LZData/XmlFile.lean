import OnlineJudger.LZData.Store
import OnlineJudger.Proofs.LZData.XmlRoundTrip

/-!
# `OnlineJudger.Proofs.LZData.XmlFile`: a tree that is saved and loaded again

`save` writes in text mode and `createFromFile` reads in binary mode, so the parser sees a
carriage return in front of each newline of the printed text. The parser takes both for white
space between the elements. Inside a tag or a value the carriage return stays.

* `parseRest_textMode`: on any text, the parser does with the other line ends what it does without
  them, and `LZData.crlf` is the difference in the tree.
* `createFromFile_save`: the same for a saved tree of any kind.
* `save_load_iff`: a tree that the format can carry is loaded with its children exactly if no tag
  and no value goes over a line. A tree without children is an empty file, which cannot be loaded.
-/

set_option autoImplicit false

namespace OnlineJudger

open Lib

namespace LZData

/-! ### Trimming -/

/-- Newlines are blanks for `trimString`, and so are the carriage returns that the file has in front
of them. -/
theorem ltrimString_textMode (t : Text) :
    ltrimString (textMode t) = textMode (ltrimString t) := by
  unfold ltrimString
  induction t with
  | nil => rfl
  | cons c t ih =>
    by_cases hc : c = '\n'
    · subst hc
      exact ih
    · rw [textMode_cons hc, List.dropWhile_cons, List.dropWhile_cons]
      split_ifs
      · exact ih
      · exact (textMode_cons hc t).symm

/-- The same from the other end. -/
theorem rtrimString_textMode (t : Text) :
    rtrimString (textMode t) = textMode (rtrimString t) := by
  unfold rtrimString
  induction t using List.reverseRecOn with
  | nil => rfl
  | append_singleton t c ih =>
    by_cases hc : c = '\n'
    · subst hc
      have hreturn : textMode (t ++ ['\n']) = (textMode t ++ ['\r']) ++ ['\n'] := by
        rw [textMode_append, List.append_assoc]
        rfl
      rw [hreturn, List.rdropWhile_concat_pos _ _ _ rfl, List.rdropWhile_concat_pos _ _ _ rfl,
        List.rdropWhile_concat_pos _ _ _ rfl, ih]
    · rw [textMode_append_cons hc]
      show (textMode t ++ [c]).rdropWhile isWhiteSpace = _
      rw [List.rdropWhile_concat, List.rdropWhile_concat]
      split_ifs
      · exact ih
      · exact (textMode_append_cons hc t []).symm

/-- A trimmed text has the line ends of the file inside only. -/
theorem trimString_textMode (t : Text) :
    trimString (textMode t) = textMode (trimString t) := by
  rw [trimString, trimString, ltrimString_textMode, rtrimString_textMode]

/-! ### Trees in text mode -/

mutual

/-- The tree with the line ends of the file in its tags and values. -/
def crlf : LZData → LZData
  | ⟨tag, value, children⟩ => ⟨textMode tag, textMode value, crlfAll children⟩

/-- The same for the children. -/
def crlfAll : List LZData → List LZData
  | [] => []
  | c :: cs => c.crlf :: crlfAll cs

end

/-- The children one by one. -/
theorem crlfAll_eq_map (cs : List LZData) : crlfAll cs = cs.map crlf := by
  induction cs with
  | nil => rfl
  | cons c cs ih => rw [crlfAll, ih, List.map_cons]

/-- A tag that goes over a line has the line ends of the file. -/
@[simp] theorem crlf_tag (d : LZData) : d.crlf.tag = textMode d.tag := by
  cases d
  rfl

/-- The children with their line ends. -/
theorem crlf_children (d : LZData) : d.crlf.children = d.children.map crlf := by
  cases d
  exact crlfAll_eq_map _

/-- A leaf, as the parser builds it from an element without a child. -/
theorem crlf_leaf (tag value : Text) :
    (⟨textMode tag, textMode value, []⟩ : LZData) = crlf ⟨tag, value, []⟩ := rfl

/-- A child is added behind the others, with its own line ends. -/
theorem crlf_addChild (d c : LZData) : (d.addChild c).crlf = d.crlf.addChild c.crlf := by
  obtain ⟨tag, value, children⟩ := d
  simp only [addChild, crlf, crlfAll_eq_map, List.map_append, List.map_singleton]

end LZData

namespace XmlParser

open Xml LZData WrapperStream

/-! ### The parser on a text in text mode -/

/-- The kind of a tag with the other line ends. -/
def TagKind.inTextMode : TagKind → TagKind
  | .closing tag => .closing (textMode tag)
  | .attr tag => .attr (textMode tag)
  | .opening tag => .opening (textMode tag)

/-- The result with the other line ends. -/
def RestResult.inTextMode : RestResult → RestResult
  | .returned ok parent rest => .returned ok parent.crlf (textMode rest)
  | .fault f => .fault f

/-- Whether the text starts with `c` is not changed by carriage returns in front of newlines. -/
theorem head?_textMode {c : Char} (hc : c ≠ '\n') (hreturn : c ≠ '\r') (t : Text) :
    (textMode t).head? = some c ↔ t.head? = some c := by
  cases t with
  | nil => exact Iff.rfl
  | cons a t =>
    by_cases ha : a = '\n'
    · subst ha
      rw [textMode_newline, List.head?_cons, List.head?_cons, Option.some.injEq, Option.some.injEq]
      exact iff_of_false (Ne.symm hreturn) (Ne.symm hc)
    · rw [textMode_cons ha, List.head?_cons, List.head?_cons]

/-- The last character is the same: a carriage return comes in front of a newline. -/
theorem getLast?_textMode (t : Text) : (textMode t).getLast? = t.getLast? := by
  cases t using List.reverseRecOn with
  | nil => rfl
  | append_singleton t c =>
    by_cases hc : c = '\n'
    · subst hc
      rw [textMode_append, show textMode ['\n'] = ['\r'] ++ ['\n'] from rfl,
        ← List.append_assoc, List.getLast?_concat, List.getLast?_concat]
    · rw [textMode_append_cons hc]
      exact (List.getLast?_concat ..).trans (List.getLast?_concat ..).symm

/-- A tag that is none of its own. -/
theorem tagKind_of_last {tag : Text} (hhead : tag.head? ≠ some '/')
    (hlast : tag.getLast? ≠ some '/') : tagKind tag = .opening tag := by
  rw [tagKind, if_neg (firstChar_eq_slash.not.mpr hhead)]
  simp only [hlast, and_false, if_false]

/-- A tag of its own has its name up to the first blank. -/
theorem tagKind_attr {u : Text} (hne : u ≠ []) (hhead : (u ++ ['/']).head? ≠ some '/') :
    tagKind (u ++ ['/']) =
      match findFirstOf (u ++ ['/']) ' ' with
      | none => .attr u
      | some pos => .attr ((u ++ ['/']).take pos) := by
  have hlength : (u ++ ['/']).length - 1 = u.length := by
    rw [List.length_append, List.length_singleton, Nat.add_sub_cancel]
  have hpos : u.length > 0 ∧ (u ++ ['/']).getLast? = some '/' :=
    ⟨List.length_pos_iff.mpr hne, List.getLast?_concat ..⟩
  rw [tagKind, if_neg (firstChar_eq_slash.not.mpr hhead)]
  cases hblank : findFirstOf (u ++ ['/']) ' ' with
  | none => simp only [hlength, if_pos hpos, List.take_left]
  | some pos => simp only [hlength, if_pos hpos]

/-- The tests on a tag do not see the line ends: they ask for slashes and a blank. So the tag in the
file is of the same kind, with its own line ends in its name. -/
theorem tagKind_textMode (tag : Text) :
    tagKind (textMode tag) = (tagKind tag).inTextMode := by
  by_cases hhead : tag.head? = some '/'
  · obtain ⟨t, rfl⟩ := List.head?_eq_some_iff.mp hhead
    rw [textMode_cons (by decide)]
    show TagKind.closing (rtrimString (textMode t)) = .closing _
    rw [rtrimString_textMode]
    rfl
  have hhead' : (textMode tag).head? ≠ some '/' :=
    fun h => hhead ((head?_textMode (by decide) (by decide) tag).mp h)
  by_cases hlast : tag.getLast? = some '/'
  · obtain ⟨u, rfl⟩ := List.getLast?_eq_some_iff.mp hlast
    have hu : u ≠ [] := by
      rintro rfl
      exact hhead rfl
    have hu' : textMode u ≠ [] := fun h => hu (textMode_eq_nil.mp h)
    have hfile : textMode (u ++ ['/']) = textMode u ++ ['/'] :=
      textMode_append_cons (by decide) u []
    rw [hfile] at hhead' ⊢
    rw [tagKind_attr hu hhead, tagKind_attr hu' hhead', ← hfile]
    -- the first blank is at the same place, behind the same text
    by_cases hblank : ' ' ∈ u ++ ['/']
    · obtain ⟨a, b, hab, ha⟩ := List.eq_append_cons_of_mem hblank
      have ha' : ' ' ∉ textMode a := fun h => ha ((mem_textMode (by decide)).mp h)
      rw [hab, textMode_append_cons (by decide), findFirstOf_append_cons ha,
        findFirstOf_append_cons ha']
      simp only [List.take_left]
      rfl
    · have hblank' : ' ' ∉ textMode (u ++ ['/']) :=
        fun h => hblank ((mem_textMode (by decide)).mp h)
      rw [findFirstOf_eq_none.mpr hblank, findFirstOf_eq_none.mpr hblank']
      rfl
  · have hlast' : (textMode tag).getLast? ≠ some '/' := by
      rw [getLast?_textMode]
      exact hlast
    rw [tagKind_of_last hhead hlast, tagKind_of_last hhead' hlast']
    rfl

/-- On any text, the parser does with the other line ends what it does without them. By induction on
the fuel, for each element and what is behind it. -/
theorem parseRest_textMode (fuel : Nat) (isRoot : Bool) (parent : LZData) (t : Text) :
    parseRest fuel isRoot parent.crlf (textMode t) =
      (parseRest fuel isRoot parent t).map RestResult.inTextMode := by
  have hopen (u : Text) : '<' ∈ textMode u ↔ '<' ∈ u := mem_textMode (by decide)
  have hclose (u : Text) : '>' ∈ textMode u ↔ '>' ∈ u := mem_textMode (by decide)
  induction fuel generalizing isRoot parent t with
  | zero => rfl
  | succ fuel ih =>
    rcases text_cases t with ht | ⟨hmem, ht⟩ | ⟨u, w, v, rfl, hu, hu', hw⟩ |
      ⟨w, body, rest, rfl, hw, hw', hbody⟩
    · rw [parseRest_noTag ht, parseRest_noTag ((hopen t).not.mpr ht)]
      rfl
    · rw [parseRest_noEnd hmem ht, parseRest_noEnd ((hopen t).mpr hmem) ((hclose t).not.mpr ht)]
      rfl
    · rw [textMode_append_cons (by decide), textMode_append_cons (by decide),
        parseRest_stray hu hu' hw,
        parseRest_stray ((hopen u).not.mpr hu) ((hclose u).not.mpr hu') ((hopen w).not.mpr hw)]
      rfl
    · rw [textMode_append_cons (by decide), textMode_append_cons (by decide),
        parseRest_tag hw hw' hbody,
        parseRest_tag ((hopen w).not.mpr hw) ((hclose w).not.mpr hw') ((hclose body).not.mpr hbody),
        trimString_textMode, tagKind_textMode]
      cases tagKind (trimString body) with
      | closing tag =>
        have htag : (textMode tag = parent.crlf.tag) = (tag = parent.tag) := by
          rw [crlf_tag, eq_iff_iff]
          exact ⟨textMode_injective, congrArg textMode⟩
        show some (RestResult.returned _ _ _) = some (RestResult.returned _ _ _)
        simp only [htag]
      | attr tag =>
        show parseRest fuel isRoot (parent.crlf.addChild _) (textMode rest) =
          (parseRest fuel isRoot _ rest).map _
        rw [← ih, crlf_addChild]
        rfl
      | opening tag =>
      show onTag _ _ _ _ (.opening (textMode tag)) =
        (onTag (parseRest fuel) isRoot parent rest (.opening tag)).map RestResult.inTextMode
      by_cases hnext : '<' ∈ rest
      · obtain ⟨content, after, rfl, hcontent⟩ := List.eq_append_cons_of_mem hnext
        rw [textMode_append_cons (by decide), onTag_opening hcontent,
          onTag_opening ((hopen content).not.mpr hcontent), trimString_textMode, crlf_leaf,
          ← textMode_cons (by decide) after, ih]
        -- the recursive call for the children
        cases parseRest fuel false ⟨tag, trimString content, []⟩ ('<' :: after) with
        | none => rfl
        | some r =>
        cases r with
        | fault f => rfl
        | returned ok node rest =>
        cases ok with
        | false =>
          simp only [Option.map_some, RestResult.inTextMode, crlf_addChild]
        | true =>
          simp only [Option.map_some, RestResult.inTextMode]
          rw [← crlf_addChild, ih]
      · rw [onTag_opening_last hnext, onTag_opening_last ((hopen rest).not.mpr hnext)]
        simp only [Option.map_some, RestResult.inTextMode, crlf_addChild]
        rfl

end XmlParser

namespace Xml

open LZData XmlParser

/-! ### Loading -/

/-- What the parser returns for a text decides the tree, whatever fuel it has taken. -/
theorem createFromBuffer_of_reads {text : Text} {r : RestResult}
    (h : Reads true ⟨rootTag, [], []⟩ text r) :
    createFromBuffer text =
      match r with
      | .fault f => some (.error f)
      | .returned _ root _ => some (.ok root) := by
  have hparse := parse_toRest (.ofText text) none (by rw [WrapperStream.rest_ofText]; exact h)
  rw [createFromBuffer]
  cases hp : parse (.ofText text) none with
  | none =>
    rw [hp] at hparse
    simp only [Option.map_none, reduceCtorEq] at hparse
  | some result =>
    rw [hp, Option.map_some, Option.some.injEq] at hparse
    subst hparse
    cases result with
    | fault f => rfl
    | returned ok root s => rfl

/-- On any text, the parser builds from the file with the other line ends the same tree, with the
line ends in its tags and values, or it runs into the same fault. -/
theorem createFromBuffer_textMode (text : Text) :
    createFromBuffer (textMode text) =
      (createFromBuffer text).map fun result => result.map LZData.crlf := by
  have hreads : ∃ r, Reads true ⟨rootTag, [], []⟩ text r := by
    rcases parseRest_isSome (Nat.lt_succ_self text.length) true ⟨rootTag, [], []⟩ with
      ⟨f, h⟩ | ⟨ok, parent, rest, h, -⟩
    · exact ⟨_, _, h⟩
    · exact ⟨_, _, h⟩
  obtain ⟨r, fuel, hr⟩ := hreads
  simp only [] at hr
  have hfile : Reads true ⟨rootTag, [], []⟩ (textMode text) r.inTextMode := by
    refine ⟨fuel, ?_⟩
    show parseRest fuel true (LZData.crlf ⟨rootTag, [], []⟩) (textMode text) = _
    simp only [parseRest_textMode, hr, Option.map_some]
  rw [createFromBuffer_of_reads hfile, createFromBuffer_of_reads ⟨fuel, hr⟩]
  cases r with
  | fault f => rfl
  | returned ok root rest => rfl

/-- A tree is printed as the empty text exactly if it has no children. -/
theorem print_eq_nil {d : LZData} (depth : Nat) : print depth d = [] ↔ d.children = [] := by
  obtain ⟨tag, value, children⟩ := d
  rw [print]
  cases children with
  | nil => exact iff_of_true rfl rfl
  | cons c cs =>
    refine iff_of_false ?_ (List.cons_ne_nil c cs)
    rw [← List.append_nil (printChildren depth (c :: cs)), printChildren_cons]
    exact List.append_ne_nil_of_right_ne_nil _ (List.cons_ne_nil _ _)

/-- A saved tree without children is an empty file, and loading it is a fault. Any other tree is
loaded as its printed text, with the line ends of the file. -/
theorem createFromFile_save (files : Text → Option Text) (fileName : Text) (d : LZData) :
    createFromFile (save true files fileName d).2 fileName =
      if d.children = [] then some (.error .emptyBuffer)
      else (createFromBuffer (print 0 d)).map fun result =>
        (result.mapError .parse).map (some ∘ LZData.crlf) := by
  have hfile : (save true files fileName d).2 fileName = some (textMode (print 0 d)) :=
    if_pos rfl
  rw [createFromFile, readFileBuffer, hfile]
  simp only [List.length_eq_zero_iff, textMode_eq_nil, print_eq_nil]
  split_ifs with h
  · rfl
  · simp only [createFromBuffer_textMode, Option.map_map]
    congr 1
    funext result
    cases result with
    | error f => rfl
    | ok root => rfl

/-! ### Loading what was saved -/

/-- No tag and no value goes over a line. -/
inductive OneLine : LZData → Prop where
  | node {tag value : Text} {children : List LZData} : '\n' ∉ tag → '\n' ∉ value →
      (∀ c ∈ children, OneLine c) → OneLine ⟨tag, value, children⟩

mutual

/-- A tree that the line ends of the file do not change has none, in any node. By induction on the
tree together with its list of children. -/
theorem oneLine_of_crlf : ∀ d : LZData, d.crlf = d → OneLine d
  | ⟨tag, value, children⟩, h => by
    rw [LZData.crlf, LZData.mk.injEq] at h
    exact .node (textMode_eq_self_iff.mp h.1) (textMode_eq_self_iff.mp h.2.1)
      (oneLine_of_crlfAll children h.2.2)

/-- The children, one by one. -/
theorem oneLine_of_crlfAll : ∀ cs : List LZData, crlfAll cs = cs → ∀ c ∈ cs, OneLine c
  | [], _ => List.forall_mem_nil _
  | c :: cs, h => by
    rw [crlfAll, List.cons.injEq] at h
    exact List.forall_mem_cons.mpr ⟨oneLine_of_crlf c h.1, oneLine_of_crlfAll cs h.2⟩

end

/-- A tree without line ends is not changed by them. -/
theorem crlf_of_oneLine {d : LZData} (h : OneLine d) : d.crlf = d := by
  induction h with
  | @node tag value children htag hvalue _ ih =>
    rw [LZData.crlf, crlfAll_eq_map, textMode_eq_self_iff.mpr htag,
      textMode_eq_self_iff.mpr hvalue, List.map_congr_left ih, List.map_id']

/-- The children that the file brings back are the saved ones exactly if they are in one line. -/
theorem map_crlf_eq_self_iff (cs : List LZData) :
    cs.map LZData.crlf = cs ↔ ∀ c ∈ cs, OneLine c := by
  constructor
  · intro h
    exact oneLine_of_crlfAll cs (by rw [crlfAll_eq_map, h])
  · intro h
    rw [List.map_congr_left fun c hc => crlf_of_oneLine (h c hc), List.map_id']

/-- A tree that the format can carry, saved and loaded again. Without children it is an empty file,
and what the load does with it is undefined. Otherwise its children come back with the line ends of
the file, so they are the saved ones exactly if no tag and no value goes over a line. -/
theorem save_load_iff (d : LZData) (h : ∀ c ∈ d.children, Printable c)
    (files : Text → Option Text) (fileName : Text) :
    (d.children = [] →
      createFromFile (save true files fileName d).2 fileName = some (.error .emptyBuffer)) ∧
    (d.children ≠ [] →
      ∃ root, createFromFile (save true files fileName d).2 fileName = some (.ok (some root)) ∧
        root.children = d.children.map LZData.crlf ∧
        (root.children = d.children ↔ ∀ c ∈ d.children, OneLine c)) := by
  rw [createFromFile_save]
  refine ⟨fun hnil => if_pos hnil, ?_⟩
  intro hne
  obtain ⟨root, rest, hreads, hchildren⟩ := reads_print h ⟨rootTag, [], []⟩ rfl
  have hloaded : root.crlf.children = d.children.map LZData.crlf := by
    rw [LZData.crlf_children, hchildren]
  refine ⟨root.crlf, ?_, hloaded, ?_⟩
  · rw [if_neg hne, createFromBuffer_of_reads hreads]
    rfl
  · rw [hloaded]
    exact map_crlf_eq_self_iff d.children

/-- A value over two lines. -/
theorem save_load_two_lines :
    let d : LZData := ⟨"root".toList, [], [⟨"a".toList, "1\n2".toList, []⟩]⟩
    (∀ c ∈ d.children, Printable c) ∧
      ∃ root, createFromFile (save true (fun _ => none) "f".toList d).2 "f".toList =
        some (.ok (some root)) ∧ root.children = [⟨"a".toList, "1\r\n2".toList, []⟩] := by
  intro d
  have hprintable : ∀ c ∈ d.children, Printable c := by
    rw [List.forall_mem_singleton]
    exact .leaf (by constructor <;> decide) (by constructor <;> decide)
  obtain ⟨root, hload, hchildren, -⟩ :=
    (save_load_iff d hprintable (fun _ => none) "f".toList).2 (List.cons_ne_nil _ _)
  exact ⟨hprintable, root, hload, hchildren⟩

end Xml

end OnlineJudger
