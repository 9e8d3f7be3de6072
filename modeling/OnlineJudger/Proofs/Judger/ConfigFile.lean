import OnlineJudger.Judger.ConfigFile
import OnlineJudger.Proofs.LZData.ReadWrite
import OnlineJudger.Proofs.LZData.XmlFaults

/-!
# `OnlineJudger.Proofs.Judger.ConfigFile`: which configuration files are accepted

`loadConfig` sees the tree that the parser has built, and not whether the parser was content. It
looks for three sections below the root.

* `loadRoot_iff`: the tree is accepted exactly if it has the three sections.
* `children_of_parse`: the sections of the tree are the elements that the text opens at the top,
  as far as the parser has read.
* `loadConfig_rejects_iff`: a file on which the parser fails is rejected exactly if one of the
  sections is not opened before that.
-/

set_option autoImplicit false

namespace OnlineJudger

open Lib XmlParser

/-! ### The sections of a tree -/

namespace LZData

/-- A path of one segment is found exactly if a child has that tag. -/
theorem readNode_isSome_iff (d : LZData) {name : Text} (h : '/' ∉ name) :
    (d.readNode name).isSome = true ↔ name ∈ d.children.map LZData.tag := by
  -- the name has no slash, so the read is a look at the children
  rw [readNode, read_eq, segments_of_none (findFirstOf_eq_none.mpr h), readSegs]
  cases hfind : d.findTag name with
  | none =>
    refine iff_of_false Bool.false_ne_true ?_
    intro hmem
    obtain ⟨c, hc, rfl⟩ := List.mem_map.mp hmem
    rw [findTag, List.findIdx?_eq_none_iff] at hfind
    have := hfind c hc
    rw [beq_self_eq_true] at this
    cases this
  | some i =>
    have hchild := getChild_of_findTag hfind
    refine iff_of_true ?_ ?_
    · simp only [readSegs, Option.map_some, Option.bind_some, nodeAt, hchild, Option.isSome_some]
    · rw [List.mem_map]
      exact ⟨_, List.mem_of_getElem? hchild, getChild_tag hfind⟩

/-- The node that a path of one segment finds. -/
theorem readNode_of_findTag (d : LZData) {name : Text} (h : '/' ∉ name) {i : Nat}
    (hfind : d.findTag name = some i) : d.readNode name = some (d.getChild i) := by
  rw [readNode, read_eq, segments_of_none (findFirstOf_eq_none.mpr h), readSegs, hfind]
  simp only [readSegs, Option.map_some, Option.bind_some, nodeAt, getChild_of_findTag hfind]

/-- A node without children has the default value for every path. -/
theorem readInt_leaf (tag value path : Text) (default : Int) :
    (LZData.mk tag value []).readInt path default = default := by
  rw [readInt, readNode, read_eq]
  cases hsegs : segments path with
  | nil => exact absurd hsegs (segments_ne_nil path)
  | cons s rest => rfl

end LZData

namespace Settings

/-- The sections that `loadConfig` looks for. -/
def sections : List Text := ["judgecode".toList, "compiler".toList, "mysql".toList]

/-- A tree is accepted exactly if it has the three sections. -/
theorem loadRoot_iff (config : Settings) (root : LZData) :
    (config.loadRoot root).1 = true ↔ ∀ name ∈ sections, name ∈ root.children.map LZData.tag := by
  simp only [sections, List.forall_mem_cons, List.not_mem_nil, false_implies, implies_true,
    and_true]
  rw [← root.readNode_isSome_iff (by decide), ← root.readNode_isSome_iff (by decide),
    ← root.readNode_isSome_iff (by decide), loadRoot]
  cases root.readNode "judgecode".toList with
  | none => simp only [Option.isSome_none, Bool.false_eq_true, false_and]
  | some ptr =>
  cases root.readNode "compiler".toList with
  | none => simp only [Option.isSome_none, Bool.false_eq_true, false_and, and_false]
  | some ptr =>
  cases root.readNode "mysql".toList with
  | none => simp only [Option.isSome_none, Bool.false_eq_true, and_false]
  | some ptr => simp only [Option.isSome_some, and_true]

/-! ### The sections of a text -/

/-- The text has an opening tag or a tag of its own with this name at the top: the tags before
it are properly nested. -/
def OpensSection (content name : Text) : Prop :=
  ∃ pre kind post, (lexTags (.between false) content).kinds = pre ++ kind :: post ∧
    Nested (pre.map TagKind.bracket) ∧ (kind = .opening name ∨ kind = .attr name)

/-- The children of the root are the elements that the text opens at the top. What a call adds is
read off how it ends, and a tag at the top that does not close is such an element. -/
theorem children_of_parse {content : Text} {ok : Bool} {root : LZData} {s : WrapperStream}
    (h : parse (.ofText content) none = some (.returned ok root s)) (name : Text) :
    name ∈ root.children.map LZData.tag ↔ OpensSection content name := by
  -- the ending of the parse tells which tags are at the top level
  obtain ⟨r, hr, hends⟩ := exists_ends (WrapperStream.ofText content).rest true ⟨rootTag, [], []⟩
  have hparse := parse_toRest (.ofText content) none hr
  rw [h, Option.map_some, Option.some.injEq] at hparse
  subst hparse
  rw [WrapperStream.rest_ofText] at hends
  rw [hends.adds.2, List.map_nil, List.nil_append, List.mem_map]
  simp only [mem_tops_iff]
  constructor
  -- a tag at the top that does not close opens a section
  · rintro ⟨kind, ⟨pre, post, hkinds, hnested, hopens⟩, rfl⟩
    refine ⟨pre, kind, post, hkinds, hnested, ?_⟩
    cases kind with
    | closing tag => exact absurd rfl (hopens tag)
    | attr tag => exact .inr rfl
    | opening tag => exact .inl rfl
  -- and the other way round
  · rintro ⟨pre, kind, post, hkinds, hnested, rfl | rfl⟩
    · exact ⟨_, ⟨pre, post, hkinds, hnested, fun _ h => by cases h⟩, rfl⟩
    · exact ⟨_, ⟨pre, post, hkinds, hnested, fun _ h => by cases h⟩, rfl⟩

/-! ### The accepted files -/

/-- What `loadConfig` makes of a file that the parser has read to `root`. -/
theorem loadConfig_of_parse {files : Text → Option Text} {fname content : Text}
    (hfile : files fname = some content) (hne : content ≠ []) {ok : Bool} {root : LZData}
    {s : WrapperStream} (h : parse (.ofText content) none = some (.returned ok root s))
    (config : Settings) : config.loadConfig files fname = some (.ok (config.loadRoot root)) := by
  have hlength : content.length ≠ 0 := fun h => hne (List.eq_nil_of_length_eq_zero h)
  have hcreate : Xml.createFromFile files fname = some (.ok (some root)) := by
    rw [Xml.createFromFile, readFileBuffer, hfile]
    simp only [if_neg hlength]
    rw [Xml.createFromBuffer, h]
    rfl
  rw [loadConfig, hcreate]

/-- The parser does not fail on an empty text. -/
theorem ne_nil_of_parse {content : Text} {root : LZData} {s : WrapperStream}
    (h : parse (.ofText content) none = some (.returned false root s)) : content ≠ [] := by
  rintro rfl
  cases h

/-- A file on which the parser fails is rejected exactly if one of the three sections is not opened
at the top of it, before the place of the failure. `loadConfig` does not look at the result of the
parse: it takes the tree as far as it was built, and the missing keys are read with their
defaults. -/
theorem loadConfig_rejects_iff (files : Text → Option Text) (fname content : Text)
    (config : Settings) (hfile : files fname = some content)
    (hfails : ∃ root s, parse (.ofText content) none = some (.returned false root s)) :
    (∃ config', config.loadConfig files fname = some (.ok (false, config'))) ↔
      ∃ name ∈ sections, ¬ OpensSection content name := by
  -- the parse has failed, so what counts is the tree that is there
  obtain ⟨root, s, hparse⟩ := hfails
  rw [loadConfig_of_parse hfile (ne_nil_of_parse hparse) hparse config]
  have hroot := config.loadRoot_iff root
  simp only [children_of_parse hparse] at hroot
  constructor
  -- a refused file lacks a section
  · rintro ⟨config', h⟩
    rw [Option.some.injEq, Except.ok.injEq] at h
    by_contra hall
    simp only [not_exists, not_and, not_not] at hall
    rw [← hroot, h] at hall
    cases hall
  -- a missing section is found missing
  · rintro ⟨name, hmem, hname⟩
    refine ⟨(config.loadRoot root).2, ?_⟩
    have : (config.loadRoot root).1 = false :=
      Bool.eq_false_iff.mpr fun h => hname (hroot.mp h name hmem)
    rw [← this]

/-- A file that is cut off in its first section, behind a blank tag: the section `mysql` is
missing, and the file is rejected. -/
theorem loadConfig_rejects_cut_off :
    let content := "<></><judgecode>".toList
    let files : Text → Option Text := fun _ => some content
    let config : Settings :=
      { cores := 0, testDataPath := [], dbusername := [], dbpassword := [], dbip := [],
        dbport := 0, dbname := [] }
    (∃ root s, parse (.ofText content) none = some (.returned false root s)) ∧
      ∃ config', config.loadConfig files "config.xml".toList = some (.ok (false, config')) := by
  intro content files config
  have hfails : ∃ root s, parse (.ofText content) none = some (.returned false root s) :=
    ⟨_, _, rfl⟩
  have hmissing : ¬ OpensSection content "mysql".toList := by
    obtain ⟨root, s, hparse⟩ := hfails
    rw [← children_of_parse hparse]
    cases hparse
    decide
  exact ⟨hfails, (loadConfig_rejects_iff files _ content config rfl hfails).mpr
    ⟨_, by simp [sections], hmissing⟩⟩

/-- Without its members the section of the verdict codes makes all of them 0. -/
theorem readJudgecode_leaf (config : Settings) (tag value : Text) :
    ∀ code ∈ (config.readJudgecode ⟨tag, value, []⟩).verdicts, code = 0 := by
  simp only [Config.verdicts, readJudgecode, LZData.readInt_leaf, List.forall_mem_cons,
    List.not_mem_nil, false_implies, implies_true, and_self]

/-- A tree with the three sections and nothing in them is accepted. -/
theorem loadRoot_cut_off (config : Settings) :
    let root : LZData := ⟨rootTag, [],
      [⟨"compiler".toList, [], []⟩, ⟨"mysql".toList, [], []⟩, ⟨"judgecode".toList, [], []⟩]⟩
    ∃ config', config.loadRoot root = (true, config') ∧ ∀ code ∈ config'.verdicts, code = 0 := by
  intro root
  have hjudgecode : root.readNode "judgecode".toList = some ⟨"judgecode".toList, [], []⟩ :=
    root.readNode_of_findTag (by decide) (show _ = some 2 by decide)
  have hcompiler : root.readNode "compiler".toList = some ⟨"compiler".toList, [], []⟩ :=
    root.readNode_of_findTag (by decide) (show _ = some 0 by decide)
  have hmysql : root.readNode "mysql".toList = some ⟨"mysql".toList, [], []⟩ :=
    root.readNode_of_findTag (by decide) (show _ = some 1 by decide)
  refine ⟨(config.loadRoot root).2, ?_, ?_⟩
  · simp only [loadRoot, hjudgecode, hcompiler, hmysql]
  · simp only [loadRoot, hjudgecode, hcompiler, hmysql]
    -- the other two sections leave the verdict codes as they are
    exact readJudgecode_leaf (config.readGeneral root) "judgecode".toList []

/-- What the parser makes of the text below: it fails at its end, with all three sections in the
tree. -/
theorem parse_cut_off : ∃ s, parse (.ofText "<compiler/><mysql/><judgecode>".toList) none =
    some (.returned false ⟨rootTag, [], [⟨"compiler".toList, [], []⟩, ⟨"mysql".toList, [], []⟩,
      ⟨"judgecode".toList, [], []⟩]⟩ s) := ⟨_, rfl⟩

/-- A file that is cut off in its last section is accepted. The section is there, its keys are not,
and all verdict codes are 0. -/
theorem loadConfig_accepts_cut_off :
    let content := "<compiler/><mysql/><judgecode>".toList
    let files : Text → Option Text := fun _ => some content
    let config : Settings :=
      { cores := 0, testDataPath := [], dbusername := [], dbpassword := [], dbip := [],
        dbport := 0, dbname := [] }
    (∃ root s, parse (.ofText content) none = some (.returned false root s)) ∧
      ∃ config', config.loadConfig files "config.xml".toList = some (.ok (true, config')) ∧
        ∀ code ∈ config'.verdicts, code = 0 := by
  intro content files config
  obtain ⟨s, hparse⟩ := parse_cut_off
  obtain ⟨config', hload, hcodes⟩ := loadRoot_cut_off config
  refine ⟨⟨_, s, hparse⟩, config', ?_, hcodes⟩
  have hfile : files "config.xml".toList = some content := rfl
  rw [loadConfig_of_parse hfile (by decide) hparse config, hload]

end Settings

end OnlineJudger
