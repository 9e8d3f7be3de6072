import OnlineJudger.LZData.Load
import OnlineJudger.Proofs.LZData.LzdFront
import OnlineJudger.Proofs.LZData.XmlRest

/-!
# `OnlineJudger.Proofs.LZData.Load`: what a load depends on

`load` is the tree of a document: the parser of its format reads all of its characters and no
others. The xml parser gets the length of the buffer, so it loads exactly the document. The lzd
parser gets a C string, which ends at the first NUL of the memory.

* `createFromMemory_eq`: the xml parser loads the document, whatever stands behind it.
* `createLzdFromBuffer_iff`: what the lzd parser makes of a buffer depends on the memory behind
  it, unless a NUL ends the string or a brace closes the root within the buffer.
-/

set_option autoImplicit false

namespace OnlineJudger

open Lib CParser

/-- The tree of a document. -/
def load (type : LzDataType) (document : Text) : Option (Except LoadFault LZData) :=
  match type with
  | .LZD_LZD =>
    let parser : CParser := { strText := document, curNode := ⟨Lzd.rootTag, [], []⟩ }
    parser.parse.map fun parser => .ok parser.curNode
  | .LZD_XML => (Xml.createFromBuffer document).map fun result => result.mapError .parse

/-! ### The xml parser -/

/-- A stream over the front of the memory. -/
theorem rest_append (text behind : Text) :
    WrapperStream.rest { buffer := fun i => (text ++ behind).getD i '\x00', size := text.length } =
      text := by
  refine List.ext_getElem ?_ ?_
  · rw [WrapperStream.length_rest]
    rfl
  · intro i _ hi
    simp only [WrapperStream.rest, List.getElem_map, List.getElem_range', Nat.zero_add,
      Nat.one_mul]
    rw [List.getD_append _ _ _ _ hi, List.getD_eq_getElem _ _ hi]

/-- The tree that a call on the text that is left builds. -/
def outcome : XmlParser.RestResult → Except LoadFault LZData
  | .returned _ root _ => .ok root
  | .fault f => .error (.parse f)

/-- A load reads the front of the memory, and only what it leaves matters. -/
theorem createFromMemory_toRest {buffer : Text} {length : Nat} (h : ¬ buffer.length < length) :
    Xml.createFromMemory buffer length = ((XmlParser.parse
      { buffer := fun i => buffer.getD i '\x00', size := length } none).map
        XmlParser.ParseResult.toRest).map outcome := by
  rw [Xml.createFromMemory, if_neg h]
  rcases XmlParser.parse _ none with - | ⟨f | ⟨ok, root, s⟩⟩ <;> rfl

/-- The tree of a document, in the same terms. -/
theorem load_xml_toRest (document : Text) :
    load .LZD_XML document = ((XmlParser.parse (.ofText document) none).map
      XmlParser.ParseResult.toRest).map outcome := by
  rw [load, Xml.createFromBuffer]
  rcases XmlParser.parse _ none with - | ⟨f | ⟨ok, root, s⟩⟩ <;> rfl

/-- The xml parser loads the document. -/
theorem createFromMemory_eq (document behind : Text) :
    Xml.createFromMemory (document ++ behind) document.length = load .LZD_XML document := by
  have hlength : ¬ (document ++ behind).length < document.length := by
    rw [List.length_append]
    omega
  rw [createFromMemory_toRest hlength, load_xml_toRest, XmlParser.parse, XmlParser.parse,
    XmlParser.parseReal_toRest, XmlParser.parseReal_toRest, rest_append, WrapperStream.rest_ofText]
  rfl

/-! ### C strings -/

/-- A string that ends within the text does not depend on what is behind it. -/
theorem cString_append_of_mem {text : Text} (h : '\x00' ∈ text) (behind : Text) :
    cString (text ++ behind) = cString text := by
  obtain ⟨str, rest, rfl, -⟩ := List.eq_append_cons_of_mem h
  rw [List.append_assoc, List.cons_append, cString_append_nul, cString_append_nul]

/-- A string that does not end within the text goes on behind it. -/
theorem cString_append_of_not_mem {text : Text} (h : '\x00' ∉ text) (behind : Text) :
    cString (text ++ behind) = text ++ cString behind := by
  unfold cString
  refine List.takeWhile_append_of_pos ?_
  intro ch hch
  exact decide_eq_true (ne_of_mem_of_not_mem hch h)

/-- A string that ends within the buffer is the document. -/
theorem createFromBuffer_of_mem {buffer : Text} (h : '\x00' ∈ buffer) (length : Nat) :
    Lzd.createFromBuffer buffer length = load .LZD_LZD (cString buffer) := if_pos h

/-! ### The lzd parser -/

/-- A brace that counts closes the root. -/
def RootClosed (text : Text) : Prop :=
  ∃ rest, walk id [] (kept (.names {}) text) = .closed () rest

/-- A section that is open at the end of the text has not closed the root. -/
theorem not_rootClosed {text : Text} {stack : List Unit}
    (h : walk id [] (kept (.names {}) text) = .inside stack) : ¬ RootClosed text := by
  rintro ⟨rest, hclosed⟩
  rw [h] at hclosed
  simp only [reduceCtorEq] at hclosed

/-- Behind the closed root nothing counts. -/
theorem load_append_of_rootClosed {text : Text} (h : RootClosed text) (behind : Text) :
    load .LZD_LZD (text ++ behind) = load .LZD_LZD text := by
  rcases front_cases ⟨Lzd.rootTag, [], []⟩ {} text with
    ⟨node, t, -, -, hdecided⟩ | ⟨⟨stack, hopen⟩, -⟩
  · have hload (behind : Text) : load .LZD_LZD (text ++ behind) = some (.ok node) := by
      obtain ⟨r, hr, hnode, -⟩ := hdecided behind _ (at_start (text ++ behind) _)
      rw [load, parse_eq_of_evals hr, Option.map_some, hnode]
    have hself := hload []
    rw [List.append_nil] at hself
    rw [hload, hself]
  · exact absurd h (not_rootClosed hopen)

/-- If the root is open, the text behind counts. -/
theorem load_append_ne {text : Text} (h : ¬ RootClosed text) :
    load .LZD_LZD (text ++ "\nx=1".toList) ≠ load .LZD_LZD (text ++ "\nx=2".toList) := by
  rcases front_cases ⟨Lzd.rootTag, [], []⟩ {} text with
    ⟨node, t, hclosed, -, -⟩ | ⟨-, hundecided⟩
  · exact absurd ⟨_, hclosed⟩ h
  · obtain ⟨r, r', hr, hr', -, -, hne⟩ := hundecided _ _ (at_start _ _) (at_start _ _)
    intro heq
    simp only [load] at heq
    rw [parse_eq_of_evals (p := { strText := text ++ "\nx=1".toList, curNode := _ }) hr,
      parse_eq_of_evals (p := { strText := text ++ "\nx=2".toList, curNode := _ }) hr',
      Option.map_some, Option.map_some, Option.some.injEq, Except.ok.injEq] at heq
    exact hne heq

/-- A NUL is no brace. -/
theorem rootClosed_of_concat_nul {text : Text} (h : RootClosed (text ++ ['\x00'])) :
    RootClosed text := by
  rcases front_cases ⟨Lzd.rootTag, [], []⟩ {} text with
    ⟨node, t, hclosed, -, -⟩ | ⟨⟨stack, hopen⟩, -⟩
  · exact ⟨_, hclosed⟩
  · have hatom (m : Mode) : m.brace '\x00' = .atom := by
      cases m <;> rfl
    have hopen' : walk id [] (kept (.names {}) (text ++ ['\x00'])) = .inside stack := by
      rw [kept_append, walk_append hopen, kept, kept, hatom]
      rfl
    exact absurd h (not_rootClosed hopen')

/-! ### Both formats -/

/-- The string of a memory in which `text` is followed by a NUL. -/
theorem createFromBuffer_nul {text : Text} (h : '\x00' ∉ text) (behind : Text) (length : Nat) :
    Lzd.createFromBuffer (text ++ '\x00' :: behind) length = load .LZD_LZD text := by
  rw [createFromBuffer_of_mem (List.mem_append_right _ (List.mem_cons_self ..)),
    cString_append_nul, cString_eq_self h]

/-- The memory behind the buffer does not count exactly if it is not read. The XML loader takes the
length; the other one reads a C string, which goes on behind a buffer without a NUL. -/
theorem same_of_memory_iff (type : LzDataType) (w : Text) :
    (∀ memory memory', w <+: memory → w <+: memory' →
        createLzdFromBuffer type memory w.length = createLzdFromBuffer type memory' w.length) ↔
      type = .LZD_XML ∨ '\x00' ∈ w := by
  constructor
  · intro h
    by_contra hno
    rw [not_or] at hno
    obtain ⟨htype, hnul⟩ := hno
    cases type with
    | LZD_XML => exact htype rfl
    | LZD_LZD =>
      -- the memory ends with the buffer, or it holds a NUL
      have heq := h w (w ++ ['\x00']) List.prefix_rfl (List.prefix_append ..)
      simp only [createLzdFromBuffer, createFromBuffer_nul hnul] at heq
      rw [Lzd.createFromBuffer, if_neg hnul, load] at heq
      rcases hparse : CParser.parse { strText := w, curNode := ⟨Lzd.rootTag, [], []⟩ } with - | r
      · rw [hparse] at heq
        simp only [Option.map_none, reduceCtorEq] at heq
      · rw [hparse] at heq
        simp only [Option.map_some, Option.some.injEq, reduceCtorEq] at heq
  · rintro h _ _ ⟨behind, rfl⟩ ⟨behind', rfl⟩
    cases type with
    | LZD_XML => exact (createFromMemory_eq w behind).trans (createFromMemory_eq w behind').symm
    | LZD_LZD =>
      have hnul := h.resolve_left (by decide)
      simp only [createLzdFromBuffer,
        createFromBuffer_of_mem (List.mem_append_left _ hnul), cString_append_of_mem hnul]

/-- If the string ends somewhere in the memory, it need not end in the buffer. Then what is behind
the buffer may be read, and it does not count if the parser has returned before it. -/
theorem same_of_terminated_iff (type : LzDataType) (w : Text) :
    (∀ memory memory', w <+: memory → w <+: memory' → '\x00' ∈ memory → '\x00' ∈ memory' →
        createLzdFromBuffer type memory w.length = createLzdFromBuffer type memory' w.length) ↔
      type = .LZD_XML ∨ '\x00' ∈ w ∨ RootClosed w := by
  constructor
  · intro h
    by_contra hno
    rw [not_or, not_or] at hno
    obtain ⟨htype, hnul, hopen⟩ := hno
    cases type with
    | LZD_XML => exact htype rfl
    | LZD_LZD =>
      have hfree {line : Text} (hline : '\x00' ∉ line) : '\x00' ∉ w ++ line :=
        fun hmem => (List.mem_append.mp hmem).elim hnul hline
      have heq := h (w ++ "\nx=1".toList ++ ['\x00']) (w ++ "\nx=2".toList ++ ['\x00'])
        ((List.prefix_append ..).trans (List.prefix_append ..))
        ((List.prefix_append ..).trans (List.prefix_append ..))
        (List.mem_append_right _ (List.mem_singleton_self _))
        (List.mem_append_right _ (List.mem_singleton_self _))
      simp only [createLzdFromBuffer] at heq
      rw [createFromBuffer_nul (hfree (by decide)), createFromBuffer_nul (hfree (by decide))] at heq
      exact load_append_ne hopen heq
  · intro h memory memory' hw hw' hmem hmem'
    by_cases hread : type = .LZD_XML ∨ '\x00' ∈ w
    · exact (same_of_memory_iff type w).mpr hread memory memory' hw hw'
    rw [not_or] at hread
    obtain ⟨htype, hnul⟩ := hread
    have hclosed := (h.resolve_left htype).resolve_left hnul
    obtain ⟨behind, rfl⟩ := hw
    obtain ⟨behind', rfl⟩ := hw'
    cases type with
    | LZD_XML => exact absurd rfl htype
    | LZD_LZD =>
      simp only [createLzdFromBuffer]
      rw [createFromBuffer_of_mem hmem, createFromBuffer_of_mem hmem',
        cString_append_of_not_mem hnul, cString_append_of_not_mem hnul,
        load_append_of_rootClosed hclosed, load_append_of_rootClosed hclosed]

/-- A NUL cuts no document short that begins with `w`, exactly if nothing behind `w` counts. A
parser counts what is behind `w` unless it has come to its end there. -/
theorem loads_past_nul_iff (type : LzDataType) {w : Text} (hnul : '\x00' ∉ w) :
    (∀ rest memory, w ++ '\x00' :: rest <+: memory →
        createLzdFromBuffer type memory (w ++ '\x00' :: rest).length =
          load type (w ++ '\x00' :: rest)) ↔
      type = .LZD_XML ∨ RootClosed w := by
  constructor
  · intro h
    by_contra hno
    rw [not_or] at hno
    obtain ⟨htype, hopen⟩ := hno
    cases type with
    | LZD_XML => exact htype rfl
    | LZD_LZD =>
      have hload (rest : Text) : load .LZD_LZD w = load .LZD_LZD (w ++ ['\x00'] ++ rest) := by
        have heq := h rest _ List.prefix_rfl
        simp only [createLzdFromBuffer] at heq
        rw [createFromBuffer_nul hnul] at heq
        rw [heq, List.append_assoc, List.singleton_append]
      exact load_append_ne (fun h => hopen (rootClosed_of_concat_nul h))
        ((hload _).symm.trans (hload _))
  · rintro h rest _ ⟨behind, rfl⟩
    cases type with
    | LZD_XML => exact createFromMemory_eq _ behind
    | LZD_LZD =>
      have hclosed := h.resolve_left (by decide)
      simp only [createLzdFromBuffer]
      rw [List.append_assoc, List.cons_append, createFromBuffer_nul hnul,
        load_append_of_rootClosed hclosed]

/-- What the memory behind the buffer, and a NUL in the buffer, do to a load:

1. the tree is the same for every memory, exactly for xml and for a buffer with a NUL;
2. if a NUL follows somewhere, then exactly for these and for a buffer that closes the root;
3. a NUL in the document cuts nothing off, exactly for xml and for a root that is closed in front
   of it. -/
theorem createLzdFromBuffer_iff (type : LzDataType) (w : Text) :
    -- for any memory
    ((∀ memory memory', w <+: memory → w <+: memory' →
        createLzdFromBuffer type memory w.length = createLzdFromBuffer type memory' w.length) ↔
      type = .LZD_XML ∨ '\x00' ∈ w) ∧
    -- for any memory in which the string ends
    ((∀ memory memory', w <+: memory → w <+: memory' → '\x00' ∈ memory → '\x00' ∈ memory' →
        createLzdFromBuffer type memory w.length = createLzdFromBuffer type memory' w.length) ↔
      type = .LZD_XML ∨ '\x00' ∈ w ∨ RootClosed w) ∧
    -- for any document with its first NUL behind `w`
    ('\x00' ∉ w →
      ((∀ rest memory, w ++ '\x00' :: rest <+: memory →
          createLzdFromBuffer type memory (w ++ '\x00' :: rest).length =
            load type (w ++ '\x00' :: rest)) ↔
        type = .LZD_XML ∨ RootClosed w)) :=
  ⟨same_of_memory_iff type w, same_of_terminated_iff type w, loads_past_nul_iff type⟩

/-- A section of three bytes without a NUL, and a NUL or a second section behind it. The tree
depends on what happens to stand there. -/
theorem createLzdFromBuffer_reads_on :
    ¬ ∀ (type : LzDataType) (n : Nat) (memory memory' : Text), n ≤ memory.length →
      n ≤ memory'.length → memory.take n = memory'.take n →
        createLzdFromBuffer type memory n = createLzdFromBuffer type memory' n := by
  intro h
  have heq := h .LZD_LZD 3 "a\x7b\x7d\x00".toList "a\x7b\x7db\x7b\x7d\x00".toList
    (by decide) (by decide) (by decide)
  have htags := congrArg (fun result : Option (Except LoadFault LZData) =>
    result.map fun tree => tree.toOption.map fun root => root.children.map (·.tag)) heq
  revert htags
  decide

end OnlineJudger
