import OnlineJudger.Proofs.LZData.XmlRest

/-!
# `OnlineJudger.Proofs.LZData.XmlRoundTrip`: the parser reads back what the printer wrote

`Printable` describes the trees that the xml format can carry. `parse_xmlPrint` says that the
parser reads the printed text of such a tree back to the same children.

The proof reads one printed element at a time, inside any open element and behind any text
without angle brackets (`ElementParses`). An inner node needs the statement for its children
in a row (`reads_printChildren`), and the induction is on `Printable`.
-/

set_option autoImplicit false

namespace OnlineJudger

open Lib

namespace Xml

/-- A tag that the parser reads as it stands. -/
structure TagOk (tag : Text) : Prop where
  ne_nil : tag ≠ []
  noOpen : '<' ∉ tag
  noClose : '>' ∉ tag
  trimmed : Trimmed isWhiteSpace tag
  head : tag.head? ≠ some '/'
  last : tag.getLast? ≠ some '/'

/-- A value that the parser reads as it stands. -/
structure ValueOk (value : Text) : Prop where
  noOpen : '<' ∉ value
  trimmed : Trimmed isWhiteSpace value

/-- The nodes that the format can carry: a value at the leaves only. -/
inductive Printable : LZData → Prop where
  | leaf {tag value : Text} : TagOk tag → ValueOk value → Printable ⟨tag, value, []⟩
  | inner {tag : Text} {children : List LZData} : TagOk tag → children ≠ [] →
      (∀ c ∈ children, Printable c) → Printable ⟨tag, [], children⟩

/-! ### The printed text of one element -/

/-- What stands between the two tags of an element. -/
def content (depth : Nat) (d : LZData) : Text :=
  if d.children = [] then '\t' :: (d.value ++ ['\t'])
  else '\n' :: (printChildren (depth + 1) d.children ++ printTable depth)

/-- An element from its opening tag to the end of its last line. -/
def element (depth : Nat) (d : LZData) (rest : Text) : Text :=
  '<' :: (d.tag ++ '>' :: (content depth d ++ '<' :: ('/' :: d.tag ++ '>' :: '\n' :: rest)))

/-- The element of the first child, and behind it those of the others. The rest of the text is
carried along, so that the reader can be run on it. -/
theorem printChildren_cons (depth : Nat) (d : LZData) (ds : List LZData) (rest : Text) :
    printChildren depth (d :: ds) ++ rest =
      printTable depth ++ element depth d (printChildren depth ds ++ rest) := by
  have hopen : "<".toList = ['<'] := rfl
  have hclose : "</".toList = ['<', '/'] := rfl
  have hnl : ">\n".toList = ['>', '\n'] := rfl
  have htab : ">\t".toList = ['>', '\t'] := rfl
  have htab' : "\t</".toList = ['\t', '<', '/'] := rfl
  rw [printChildren, hopen, hclose, hnl, htab, htab']
  obtain ⟨tag, value, children⟩ := d
  cases children with
  | nil =>
    have hzero : ¬ (LZData.mk tag value []).countChildren > 0 := Int.lt_irrefl 0
    simp only [if_neg hzero, element, content, if_true, List.append_assoc, List.cons_append,
      List.nil_append]
  | cons c cs =>
    have hpos : (LZData.mk tag value (c :: cs)).countChildren > 0 := by
      simp only [LZData.countChildren, List.length_cons]
      omega
    simp only [if_pos hpos, print, element, content, reduceCtorEq, if_false,
      List.append_assoc, List.cons_append, List.nil_append]

end Xml

namespace XmlParser

open Xml WrapperStream

/-! ### Reading a tag -/

/-- A tag that can be carried is read as an opening one, because it neither begins nor ends with a
slash. -/
theorem tagKind_opening {tag : Text} (h : TagOk tag) :
    tagKind (trimString tag) = .opening tag := by
  have htrim : trimString tag = tag := trim_eq_self h.trimmed
  rw [htrim, tagKind, if_neg (firstChar_eq_slash.not.mpr h.head)]
  simp only [h.last, and_false, if_false]

/-- With a slash in front it is the closing one of its element. -/
theorem tagKind_closing {tag : Text} (h : TagOk tag) :
    tagKind (trimString ('/' :: tag)) = .closing tag := by
  have hslash : Trimmed isWhiteSpace ('/' :: tag) := by
    refine ⟨?_, ?_⟩
    · intro c hc
      rw [List.head?_cons, Option.mem_some_iff] at hc
      subst hc
      rfl
    · intro c hc
      rw [List.getLast?_cons_of_ne_nil h.ne_nil] at hc
      exact h.trimmed.2 c hc
  have htrim : trimString ('/' :: tag) = '/' :: tag := trim_eq_self hslash
  have hrtrim : rtrimString tag = tag := by
    have hrdrop := rdropWhile_append_of_last (List.forall_mem_nil _) h.trimmed.2
    rwa [List.append_nil] at hrdrop
  rw [htrim, tagKind, if_pos (firstChar_eq_slash.mpr rfl), List.drop_one, List.tail_cons, hrtrim]

/-- The closing tag of the parent ends its content. What stands in front of it is the value of a
leaf, or the indentation. -/
theorem reads_closing {w : Text} (hw : '<' ∉ w) (hw' : '>' ∉ w) (parent : LZData)
    (h : TagOk parent.tag) (isRoot : Bool) (rest : Text) :
    Reads isRoot parent (w ++ '<' :: ('/' :: parent.tag ++ '>' :: rest))
      (.returned true parent rest) := by
  have hbody : '>' ∉ '/' :: parent.tag := by
    rw [List.mem_cons, not_or]
    exact ⟨by decide, h.noClose⟩
  have hreads : Reads isRoot parent _ (.returned (parent.tag = parent.tag) parent rest) :=
    Reads.closing hw hw' hbody (tagKind_closing h) rest
  rwa [decide_eq_true rfl] at hreads

/-! ### Reading the printed elements -/

/-- The parser reads an element, and goes on behind it with one child more. -/
def ElementParses (d : LZData) : Prop :=
  ∀ (depth : Nat) (isRoot : Bool) (parent : LZData) (w rest : Text) (r : RestResult),
    '<' ∉ w → '>' ∉ w → Reads isRoot (parent.addChild d) ('\n' :: rest) r →
      Reads isRoot parent (w ++ element depth d rest) r

/-- The end of a line and the indentation of the next one. -/
theorem notMem_indent {ch : Char} (hnl : ch ≠ '\n') (htab : ch ≠ '\t') (depth : Nat) :
    ch ∉ '\n' :: printTable depth := by
  rw [List.mem_cons, not_or]
  exact ⟨hnl, fun h => htab (List.eq_of_mem_replicate h)⟩

/-- An indentation is no value. -/
theorem trimString_indent (depth : Nat) : trimString ('\n' :: printTable depth) = [] := by
  refine trim_eq_nil ?_
  intro c hc
  rcases List.mem_cons.mp hc with rfl | hc
  · rfl
  · rw [List.eq_of_mem_replicate hc]
    rfl

/-- Elements in a row. -/
theorem reads_printChildren {ds : List LZData} (h : ∀ d ∈ ds, ElementParses d) (depth : Nat)
    (isRoot : Bool) (parent : LZData) (rest : Text) (r : RestResult)
    (hr : Reads isRoot { parent with children := parent.children ++ ds } ('\n' :: rest) r) :
    Reads isRoot parent ('\n' :: (printChildren depth ds ++ rest)) r := by
  induction ds generalizing parent with
  | nil =>
    rw [List.append_nil] at hr
    cases parent
    exact hr
  | cons d ds ih =>
    rw [printChildren_cons, ← List.cons_append]
    refine h d (List.mem_cons_self ..) depth isRoot parent _ _ r
      (notMem_indent (by decide) (by decide) depth) (notMem_indent (by decide) (by decide) depth) ?_
    refine ih (fun c hc => h c (List.mem_cons_of_mem _ hc)) (parent.addChild d) ?_
    simp only [LZData.addChild, List.append_assoc, List.singleton_append]
    exact hr

/-- An element that can be printed, by induction on the tree. A leaf is read to its closing tag, and
an inner node uses the statement for its children in a row. -/
theorem elementParses_of_printable {d : LZData} (h : Printable d) : ElementParses d := by
  induction h with
  | @leaf tag value htag hvalue =>
    intro depth isRoot parent w rest r hw hw' hr
    have hcontent : content depth ⟨tag, value, []⟩ = '\t' :: (value ++ ['\t']) := rfl
    have hopen : '<' ∉ '\t' :: (value ++ ['\t']) := by
      simp only [List.mem_cons, List.mem_append, hvalue.noOpen, List.not_mem_nil, or_false,
        false_or]
      decide
    have htrim : trimString ('\t' :: (value ++ ['\t'])) = value := by
      have htab : ∀ c ∈ ['\t'], isWhiteSpace c = true := List.all_eq_true.mp rfl
      exact trim_append htab htab hvalue.trimmed
    rw [element, hcontent]
    refine Reads.opening hw hw' htag.noClose (tagKind_opening htag) hopen ?_ hr
    rw [htrim]
    exact reads_closing List.not_mem_nil List.not_mem_nil ⟨tag, value, []⟩ htag false _
  | @inner tag children htag hne _ ih =>
    intro depth isRoot parent w rest r hw hw' hr
    obtain ⟨c, cs, rfl⟩ := List.exists_cons_of_ne_nil hne
    -- the value of an inner node is the indentation of its first child
    have htext : element depth ⟨tag, [], c :: cs⟩ rest =
        '<' :: (tag ++ '>' :: (('\n' :: printTable (depth + 1)) ++ element (depth + 1) c
          (printChildren (depth + 1) cs ++
            (printTable depth ++ '<' :: ('/' :: tag ++ '>' :: '\n' :: rest))))) := by
      rw [List.cons_append, ← printChildren_cons]
      simp only [element, content, reduceCtorEq, if_false, List.append_assoc, List.cons_append]
    rw [htext, element]
    refine Reads.opening hw hw' htag.noClose (tagKind_opening htag)
      (notMem_indent (by decide) (by decide) _) ?_ hr
    rw [trimString_indent]
    refine ih c (List.mem_cons_self ..) (depth + 1) false ⟨tag, [], []⟩ [] _ _ (by simp)
      (by simp) ?_
    refine reads_printChildren (fun d hd => ih d (List.mem_cons_of_mem _ hd)) _ _ _ _ _ ?_
    exact reads_closing (notMem_indent (by decide) (by decide) depth)
      (notMem_indent (by decide) (by decide) depth) ⟨tag, [], c :: cs⟩ htag false _

/-- The children of a printed root. The root itself is not printed, so the call that reads them runs
to the end of the text. -/
theorem reads_print {root : LZData} (h : ∀ d ∈ root.children, Printable d) (parent : LZData)
    (hparent : parent.children = []) :
    ∃ root' rest, Reads true parent (print 0 root) (.returned true root' rest) ∧
      root'.children = root.children := by
  obtain ⟨rootTag, rootValue, children⟩ := root
  simp only [print] at h ⊢
  -- a root without children is printed as the empty text
  cases children with
  | nil => exact ⟨parent, [], Reads.noTag (by simp [printChildren]) .., hparent⟩
  | cons d ds =>
    have hnl : '<' ∉ ['\n'] := by decide
    refine ⟨{ parent with children := parent.children ++ d :: ds }, ['\n'], ?_, ?_⟩
    · rw [← List.append_nil (printChildren 0 (d :: ds)), printChildren_cons]
      refine elementParses_of_printable (h d (List.mem_cons_self ..)) 0 true parent [] _ _
        (by simp) (by simp) ?_
      refine reads_printChildren
        (fun c hc => elementParses_of_printable (h c (List.mem_cons_of_mem _ hc))) _ _ _ _ _ ?_
      simp only [LZData.addChild, List.append_assoc, List.singleton_append]
      exact Reads.noTag hnl ..
    · rw [hparent, List.nil_append]

/-- The parser reads a printed tree back to the same children, for a tree of any depth whose tags
and values the format can carry. The induction is on the tree: the children of a node are read by
the nested call, which stops at the closing tag of the node. -/
theorem parse_xmlPrint (root : LZData) (h : ∀ d ∈ root.children, Printable d) :
    ∃ root' s, parse (.ofText (print 0 root)) none = some (.returned true root' s) ∧
      root'.children = root.children := by
  obtain ⟨root', rest, hreads, hchildren⟩ := reads_print h ⟨rootTag, [], []⟩ rfl
  obtain ⟨s, hparse, -⟩ := parse_eq_returned (.ofText (print 0 root)) none
    (by rw [rest_ofText]; exact hreads)
  exact ⟨root', s, hparse, hchildren⟩

/-- A tree with repeated tags, a blank and a slash in a tag, and an end mark in a value. None of
them disturbs the reader. -/
theorem parse_xmlPrint_repeated :
    ∃ root' s, parse (.ofText (print 0 ⟨"root".toList, [],
        [⟨"a b".toList, "x>y".toList, []⟩,
          ⟨"c/d".toList, [], [⟨"e".toList, [], []⟩, ⟨"e".toList, "1".toList, []⟩]⟩]⟩)) none =
      some (.returned true root' s) ∧
      root'.children = [⟨"a b".toList, "x>y".toList, []⟩,
        ⟨"c/d".toList, [], [⟨"e".toList, [], []⟩, ⟨"e".toList, "1".toList, []⟩]⟩] := by
  refine parse_xmlPrint _ ?_
  have he : TagOk "e".toList := by constructor <;> decide
  intro d hd
  simp only [List.mem_cons, List.not_mem_nil, or_false] at hd
  rcases hd with rfl | rfl
  · exact .leaf (by constructor <;> decide) (by constructor <;> decide)
  · refine .inner (by constructor <;> decide) (by decide) ?_
    intro d hd
    simp only [List.mem_cons, List.not_mem_nil, or_false] at hd
    rcases hd with rfl | rfl
    · exact .leaf he (by constructor <;> decide)
    · exact .leaf he (by constructor <;> decide)

end XmlParser

end OnlineJudger
