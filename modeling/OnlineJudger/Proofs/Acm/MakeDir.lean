import Mathlib.Data.List.Induction
import OnlineJudger.Acm.FileTool
import OnlineJudger.Proofs.Judger.WorkDir

/-!
# `OnlineJudger.Proofs.Acm.MakeDir`: the directories that `makeDir` makes

* `getFilePath_pathName`: the path in front of the last name has one name less.
* `MakesDirs`: what is to be made on a path, in terms of the path and not of its spelling.
* `makeDir_spec`: `makeDir` makes exactly these directories.
* `makeDir_codePath`: the path of a task is the work directory.
-/

set_option autoImplicit false

namespace OnlineJudger

/-! ### The spelling of a path -/

/-- A name between two slashes that stands for itself: the system drops dots and blanks at the end
of a name, and `.` and `..` end in a dot. -/
structure NameOk (name : Text) : Prop where
  ne_nil : name ≠ []
  noSlash : SLASH_USE ∉ name
  noOldSlash : SLASH_OLD ∉ name
  noDot : name.getLast? ≠ some '.'
  noBlank : name.getLast? ≠ some ' '

/-- The path as the system spells it. -/
def pathName (path : List Text) : Text := [SLASH_USE].intercalate path

/-- One name more. -/
theorem pathName_concat {path : List Text} (hne : path ≠ []) (name : Text) :
    pathName (path ++ [name]) = pathName path ++ SLASH_USE :: name := by
  induction path with
  | nil => exact absurd rfl hne
  | cons c path ih =>
    cases path with
    | nil =>
      show [SLASH_USE].intercalate [c, name] = [SLASH_USE].intercalate [c] ++ _
      rw [List.intercalate_cons_cons, List.intercalate_singleton, List.intercalate_singleton,
        List.append_assoc]
      rfl
    | cons c' path =>
      show [SLASH_USE].intercalate (c :: c' :: (path ++ [name])) =
        [SLASH_USE].intercalate (c :: c' :: path) ++ _
      rw [List.intercalate_cons_cons, List.intercalate_cons_cons, List.append_assoc (c ++ _)]
      exact congrArg _ (ih (List.cons_ne_nil _ _))

/-- A name without the other slash is spelled as it is. -/
theorem formatSlash_eq_self {name : Text} (h : SLASH_OLD ∉ name) : formatSlash name = name := by
  unfold formatSlash
  refine (List.map_congr_left fun ch hch => ?_).trans (List.map_id name)
  exact if_neg (ne_of_mem_of_not_mem hch h)

/-- The character is not there. -/
theorem findLastOf_eq_none {str : Text} {ch : Char} (h : ch ∉ str) : findLastOf str ch = none := by
  rw [findLastOf, Option.map_eq_none_iff, List.findIdx?_eq_none_iff]
  intro c hc
  exact beq_eq_false_iff_ne.mpr (ne_of_mem_of_not_mem (List.mem_reverse.mp hc) h)

/-- The last one is in front of a text without it. -/
theorem findLastOf_append {ch : Char} (front : Text) {back : Text} (h : ch ∉ back) :
    findLastOf (front ++ ch :: back) ch = some front.length := by
  have hfind : (front ++ ch :: back).reverse.findIdx? (· == ch) = some back.length := by
    rw [List.reverse_append, List.reverse_cons, List.append_assoc, List.findIdx?_append,
      List.findIdx?_eq_none_iff.mpr ?_]
    · simp [List.findIdx?_cons]
    · intro c hc
      exact beq_eq_false_iff_ne.mpr (ne_of_mem_of_not_mem (List.mem_reverse.mp hc) h)
  rw [findLastOf, hfind, Option.map_some, List.length_append, List.length_cons]
  congr 1
  omega

variable {fold : Text → Text} {path : List Text} {name : Text}

/-- No name of the path has the other slash. -/
theorem oldSlash_not_mem_pathName (h : ∀ c ∈ path, NameOk c) : SLASH_OLD ∉ pathName path := by
  induction path using List.reverseRecOn with
  | nil => exact List.not_mem_nil
  | append_singleton path c ih =>
    have hc := (h c (List.mem_append_right _ List.mem_cons_self)).noOldSlash
    by_cases hne : path = []
    · subst hne
      rw [List.nil_append, pathName, List.intercalate_singleton]
      exact hc
    · rw [pathName_concat hne, List.mem_append, List.mem_cons, not_or, not_or]
      exact ⟨ih fun c hc => h c (List.mem_append_left _ hc), by decide, hc⟩

/-- So the path is in order already. -/
theorem formatSlash_pathName (h : ∀ c ∈ path, NameOk c) :
    formatSlash (pathName path) = pathName path :=
  formatSlash_eq_self (oldSlash_not_mem_pathName h)

/-- The names of the path, as the system looks them up. -/
theorem components_pathName (h : ∀ c ∈ path, NameOk c) :
    components fold (pathName path) = path.map fold := by
  rw [components, formatSlash_pathName h]
  refine congrArg (List.map fold) ?_
  by_cases hne : path = []
  · subst hne
    rfl
  · rw [pathName, List.splitOn_intercalate _ (fun c hc => (h c hc).noSlash) hne]
    exact List.filter_eq_self.mpr fun c hc => decide_eq_true (h c hc).ne_nil

/-- A path with a name is no empty text. -/
theorem pathName_ne_nil (h : ∀ c ∈ path, NameOk c) (hne : path ≠ []) : pathName path ≠ [] := by
  intro hnil
  have hpath : components id (pathName path) = path.map id := components_pathName h
  rw [hnil, List.map_id] at hpath
  exact hne hpath.symm

/-- A path does not end in a slash. -/
theorem getLast?_pathName (h : ∀ c ∈ path, NameOk c) :
    (pathName path).getLast? ≠ some SLASH_USE := by
  induction path using List.reverseRecOn with
  | nil => exact fun hnil => by cases hnil
  | append_singleton path c ih =>
    have hc := h c (List.mem_append_right _ List.mem_cons_self)
    have hlast : (pathName (path ++ [c])).getLast? = c.getLast? := by
      by_cases hne : path = []
      · subst hne
        rw [List.nil_append, pathName, List.intercalate_singleton]
      · rw [pathName_concat hne, List.getLast?_append_of_ne_nil _ (List.cons_ne_nil _ _)]
        obtain ⟨ch, c, rfl⟩ := List.exists_cons_of_ne_nil hc.ne_nil
        exact List.getLast?_cons_cons
    rw [hlast]
    exact fun hslash => hc.noSlash (List.mem_of_mem_getLast? hslash)

/-- The path in front of the last name has one name less. -/
theorem getFilePath_pathName (h : ∀ c ∈ path, NameOk c) (hname : NameOk name) :
    getFilePath (pathName (path ++ [name])) = pathName path := by
  have hall : ∀ c ∈ path ++ [name], NameOk c :=
    List.forall_mem_append.mpr ⟨h, List.forall_mem_singleton.mpr hname⟩
  simp only [getFilePath, formatSlash_pathName hall]
  by_cases hne : path = []
  · subst hne
    rw [List.nil_append, pathName, List.intercalate_singleton, findLastOf_eq_none hname.noSlash]
    rfl
  · rw [pathName_concat hne, findLastOf_append _ hname.noSlash]
    exact List.take_left

/-! ### What there is to make -/

/-- Everything stands in a directory. -/
structure Volume.Closed (volume : Volume) : Prop where
  root : volume [] = some .dir
  parent : ∀ path name, volume (path ++ [name]) ≠ none → volume path = some .dir

/-- The directory is missing, and nothing on the way to it is a file or is refused. -/
def Makes (refuse : List Text → Bool) (volume : Volume) (path : List Text) : Prop :=
  volume path = none ∧
    ∀ q, q <+: path → volume q ≠ some .file ∧ (volume q = none → refuse q = false)

/-- The directories on the path are made, and nothing else. -/
structure MakesDirs (refuse : List Text → Bool) (volume : Volume) (path : List Text)
    (result : Bool × Volume) : Prop where
  made : ∀ p, p <+: path → Makes refuse volume p → result.2 p = some .dir
  other : ∀ p, ¬ (p <+: path ∧ Makes refuse volume p) → result.2 p = volume p
  /-- The result says whether the path is there. -/
  returns : result.1 = true ↔ result.2 path ≠ none

variable {refuse : List Text → Bool} {volume : Volume} {result : Bool × Volume}

/-- The fronts of a path with one name more. -/
theorem prefix_concat_iff {p path : List Text} {name : Text} :
    p <+: path ++ [name] ↔ p = path ++ [name] ∨ p <+: path :=
  List.prefix_concat_iff

/-- What stands in front of a path that is there is a directory. -/
theorem Volume.Closed.of_prefix (h : volume.Closed) {p : List Text} (hp : p <+: path)
    (hpath : volume path ≠ none) : p = path ∨ volume p = some .dir := by
  induction path using List.reverseRecOn with
  | nil => exact .inl (List.prefix_nil.mp hp)
  | append_singleton path name ih =>
    have hparent := h.parent path name hpath
    refine (prefix_concat_iff.mp hp).imp_right fun hp => ?_
    rcases ih hp (by rw [hparent]; exact Option.some_ne_none _) with rfl | hdir
    · exact hparent
    · exact hdir

/-- What is missing in front of a directory that can be made can be made, too. -/
theorem Makes.of_prefix {p : List Text} (h : Makes refuse volume path) (hp : p <+: path)
    (hnone : volume p = none) : Makes refuse volume p :=
  ⟨hnone, fun q hq => h.2 q (hq.trans hp)⟩

/-- A path that is there. -/
theorem makesDirs_of_exists (h : volume.Closed) (hpath : volume path ≠ none) :
    MakesDirs refuse volume path (true, volume) where
  made p hp hmakes := by
    rcases h.of_prefix hp hpath with rfl | hdir
    · exact absurd hmakes.1 hpath
    · exact hdir
  other _ _ := rfl
  returns := iff_of_true rfl hpath

/-- The last directory of a path is to be made if the path in front of it is there as a directory,
once all that can be made of that path has been made. -/
theorem MakesDirs.makes_concat_iff (h : MakesDirs refuse volume path result) (hv : volume.Closed)
    (hnone : volume (path ++ [name]) = none) :
    Makes refuse volume (path ++ [name]) ↔
      result.2 path = some .dir ∧ refuse (path ++ [name]) = false := by
  constructor
  · intro hmakes
    refine ⟨?_, (hmakes.2 _ (List.prefix_refl _)).2 hnone⟩
    have hfront : path <+: path ++ [name] := List.prefix_append _ _
    cases hkind : volume path with
    | none => exact h.made path (List.prefix_refl _) (hmakes.of_prefix hfront hkind)
    | some kind =>
      rw [h.other path fun hp => Option.some_ne_none kind (hkind.symm.trans hp.2.1), hkind]
      cases kind with
      | dir => rfl
      | file => exact absurd hkind (hmakes.2 path hfront).1
  · rintro ⟨hpath, hallowed⟩
    refine ⟨hnone, fun q hq => ?_⟩
    rcases prefix_concat_iff.mp hq with rfl | hq
    · rw [hnone]
      exact ⟨(Option.some_ne_none _).symm, fun _ => hallowed⟩
    by_cases hmakes : Makes refuse volume path
    · exact hmakes.2 q hq
    · -- the path was there
      have hsame : volume path = some .dir :=
        (h.other path fun hp => hmakes hp.2).symm.trans hpath
      have hdir : volume q = some .dir := by
        rcases hv.of_prefix hq (by rw [hsame]; exact Option.some_ne_none _) with rfl | hdir
        · exact hsame
        · exact hdir
      rw [hdir]
      exact ⟨by decide, fun hnone => by cases hnone⟩

/-- The last directory is not made. -/
theorem MakesDirs.stay (h : MakesDirs refuse volume path result)
    (hnone' : result.2 (path ++ [name]) = none)
    (hnot : ¬ Makes refuse volume (path ++ [name])) :
    MakesDirs refuse volume (path ++ [name]) (false, result.2) where
  made p hp hmakes := by
    rcases prefix_concat_iff.mp hp with rfl | hp
    · exact absurd hmakes hnot
    · exact h.made p hp hmakes
  other p hp := h.other p fun hp' => hp ⟨prefix_concat_iff.mpr (.inr hp'.1), hp'.2⟩
  returns := iff_of_false Bool.false_ne_true (not_not.mpr hnone')

/-- The last directory is made, and nothing else changes. The paths in front of it are those that
the calls so far have dealt with. -/
theorem MakesDirs.add (h : MakesDirs refuse volume path result)
    (hmakes : Makes refuse volume (path ++ [name])) :
    MakesDirs refuse volume (path ++ [name])
      (true, fun p => if p = path ++ [name] then some .dir else result.2 p) where
  made p hp hp' := by
    show (if p = path ++ [name] then _ else result.2 p) = _
    -- the new directory itself, or one above it, which was there before
    by_cases heq : p = path ++ [name]
    · exact if_pos heq
    · rw [if_neg heq]
      exact h.made p ((prefix_concat_iff.mp hp).resolve_left heq) hp'
  other p hp := by
    show (if p = path ++ [name] then _ else result.2 p) = _
    -- a path that is not made is not the new one
    have heq : p ≠ path ++ [name] := by
      rintro rfl
      exact hp ⟨List.prefix_refl _, hmakes⟩
    rw [if_neg heq]
    exact h.other p fun hp' => hp ⟨prefix_concat_iff.mpr (.inr hp'.1), hp'.2⟩
  returns := by
    refine iff_of_true rfl ?_
    show (if path ++ [name] = path ++ [name] then _ else result.2 _) ≠ none
    rw [if_pos rfl]
    exact Option.some_ne_none _

/-! ### `makeDir` -/

/-- The last directory of a path that is not there, behind the call for the path in front of it. It
is made if that call returned true and `CreateDirectory` is not refused; in the other cases it is
not among those that can be made. -/
theorem MakesDirs.concat {dir : Text} (h : MakesDirs refuse volume path result) (hv : volume.Closed)
    (hdir : dir ≠ []) (hpath : components fold dir = path ++ [name])
    (hnone : volume (path ++ [name]) = none) :
    MakesDirs refuse volume (path ++ [name])
      (if result.1 = true then makeDirDirect fold refuse result.2 dir
      else (false, result.2)) := by
  have hmakes := h.makes_concat_iff hv hnone
  -- the calls so far have made paths above this one only
  have hnone' : result.2 (path ++ [name]) = none := by
    refine (h.other _ fun hp => ?_).trans hnone
    have hle := hp.1.length_le
    rw [List.length_append, List.length_singleton] at hle
    omega
  split_ifs with hresult
  -- the directory above is there: one `CreateDirectory` is left
  · simp only [makeDirDirect, hpath, hnone', hdir, List.dropLast_concat, ne_eq, not_true_eq_false,
      false_or]
    split_ifs with hfail
    -- it fails, so this path is not among those that can be made
    · refine h.stay hnone' fun hmake => ?_
      obtain ⟨hpath, hallowed⟩ := hmakes.mp hmake
      rw [hallowed] at hfail
      exact hfail.elim (fun hfile => hfile hpath) Bool.false_ne_true
    -- it succeeds, and the path joins the others
    · rw [not_or, not_not, Bool.not_eq_true] at hfail
      exact h.add (hmakes.mpr hfail)
  -- the directory above is missing, which rules this path out as well
  · refine h.stay hnone' fun hmake => ?_
    have hthere := mt h.returns.mpr hresult
    rw [(hmakes.mp hmake).1] at hthere
    exact hthere (Option.some_ne_none _)

/-- The call puts a path in order that is in order already. -/
theorem formatDirName_pathName (h : ∀ c ∈ path, NameOk c) :
    formatDirName (pathName path) false = pathName path := by
  unfold formatDirName
  simp only [formatSlash_pathName h, getLast?_pathName h, Bool.false_eq_true, if_false, ite_self]

/-- `makeDir` of a path in order, by induction on the path: the call in front makes what it can, and
then the last directory is made or not. -/
theorem makesDirs_pathName (hv : volume.Closed) (hne : path ≠ []) (hok : ∀ c ∈ path, NameOk c) :
    MakesDirs refuse volume (path.map fold) (makeDir fold refuse volume (pathName path)) := by
  induction path using List.reverseRecOn with
  | nil => exact absurd rfl hne
  | append_singleton path name ih =>
    obtain ⟨hpath, hname⟩ := List.forall_mem_append.mp hok
    rw [List.forall_mem_singleton] at hname
    have hcomponents : components fold (pathName (path ++ [name])) =
        path.map fold ++ [fold name] := by
      rw [components_pathName hok, List.map_append, List.map_singleton]
    rw [List.map_append, List.map_singleton, makeDir, fileExist, hcomponents]
    simp only [pathName_ne_nil hok hne, ne_eq, not_false_eq_true, decide_true, Bool.true_and,
      formatDirName_pathName hok, getFilePath_pathName hpath hname]
    split_ifs with hexists hparent
    · exact makesDirs_of_exists hv (Option.isSome_iff_ne_none.mp hexists)
    · have hnil : path = [] := by
        by_contra hne'
        exact pathName_ne_nil hpath hne' hparent
      subst hnil
      rw [Bool.not_eq_true, Option.isSome_eq_false_iff, Option.isNone_iff_eq_none] at hexists
      have hroot : volume [] ≠ none := by
        rw [hv.root]
        exact Option.some_ne_none _
      exact (makesDirs_of_exists hv hroot).concat hv (pathName_ne_nil hok hne) hcomponents hexists
    · -- the path in front is made first
      have hne' : path ≠ [] := by
        rintro rfl
        exact hparent rfl
      rw [Bool.not_eq_true, Option.isSome_eq_false_iff, Option.isNone_iff_eq_none] at hexists
      have hlast := (ih hne' hpath).concat hv (pathName_ne_nil hok hne) hcomponents hexists
      generalize makeDir fold refuse volume (pathName path) = result at hlast
      obtain ⟨ok, volume'⟩ := result
      cases ok with
      | false => exact hlast
      | true => exact hlast

/-- How a caller may spell a path: with both slashes, and with a slash at the end. -/
structure Spells (dir : Text) (path : List Text) : Prop where
  ne_nil : path ≠ []
  names : ∀ c ∈ path, NameOk c
  spelled : formatSlash dir = pathName path ∨ formatSlash dir = pathName path ++ [SLASH_USE]

/-- The spelling is put in order before the first directory is made, so two spellings of one path
give the same result and leave the same volume. -/
theorem makeDir_eq_of_spells {dir : Text} (h : Spells dir path) :
    makeDir fold refuse volume dir = makeDir fold refuse volume (pathName path) := by
  -- a spelling names at least one component
  have hdir : dir ≠ [] := by
    rintro rfl
    have hne := pathName_ne_nil h.names h.ne_nil
    rcases h.spelled with hspelled | hspelled
    · exact hne hspelled.symm
    · exact List.append_ne_nil_of_left_ne_nil hne _ hspelled.symm
  -- a slash at the end gives an empty component, which is dropped
  have hcomponents : components fold dir = path.map fold := by
    rw [← components_pathName h.names]
    rcases h.spelled with hspelled | hspelled
    · rw [components, components, hspelled, formatSlash_pathName h.names]
    · rw [components, components, hspelled, formatSlash_pathName h.names,
        List.splitOn_append_cons_self, List.splitOn_nil, List.filter_append]
      exact congrArg (List.map fold) (List.append_nil _)
  -- `formatDirName` takes the slash at the end away
  have htemp : formatDirName dir false = pathName path := by
    unfold formatDirName
    simp only [List.isEmpty_iff, hdir, Bool.false_eq_true, if_false]
    rcases h.spelled with hspelled | hspelled
    · rw [hspelled, if_neg (getLast?_pathName h.names)]
    · rw [hspelled, if_pos List.getLast?_concat, List.dropLast_concat]
  rw [makeDir, makeDir, fileExist, fileExist, hcomponents, components_pathName h.names, htemp,
    formatDirName_pathName h.names, decide_eq_true hdir,
    decide_eq_true (pathName_ne_nil h.names h.ne_nil)]

/-- Everything still stands in a directory. -/
theorem MakesDirs.closed (h : MakesDirs refuse volume path result) (hv : volume.Closed) :
    result.2.Closed := by
  have hkeep : ∀ p, volume p = some .dir → result.2 p = some .dir := fun p hp =>
    (h.other p fun hmakes => Option.some_ne_none _ (hp.symm.trans hmakes.2.1)).trans hp
  refine ⟨hkeep [] hv.root, fun p name hthere => ?_⟩
  by_cases hmade : p ++ [name] <+: path ∧ Makes refuse volume (p ++ [name])
  · obtain ⟨hp, hmakes⟩ := hmade
    have hfront : p <+: p ++ [name] := List.prefix_append _ _
    cases hkind : volume p with
    | none => exact h.made p (hfront.trans hp) (hmakes.of_prefix hfront hkind)
    | some kind =>
      cases kind with
      | dir => exact hkeep p hkind
      | file => exact absurd hkind (hmakes.2 p hfront).1
  · rw [h.other _ hmade] at hthere
    exact hkeep p (hv.parent p name hthere)

/-- The name is a plain one. -/
theorem nameOk_work : NameOk "work".toList := by
  constructor <;> decide

/-- `WORK_DIR` has a slash at its end. -/
theorem spells_workDir : Spells WORK_DIR ["work".toList] where
  ne_nil := List.cons_ne_nil _ _
  names := List.forall_mem_singleton.mpr nameOk_work
  spelled := .inr rfl

/-- No extension has a slash in it, so the last slash of a file name is the one behind the
directory. -/
theorem noSlash_of_mem_workExts {config : Config} {language : Int} {ext : Text}
    (h : ext ∈ TaskBase.workExts config language) : SLASH_USE ∉ ext ∧ SLASH_OLD ∉ ext := by
  simp only [TaskBase.workExts, List.mem_cons, List.not_mem_nil, or_false] at h
  rcases h with rfl | rfl | rfl | rfl
  · obtain ⟨ext, hmem, h⟩ := getLanguageExt_eq config language
    rw [h]
    simp only [List.mem_cons, List.not_mem_nil, or_false] at hmem
    rcases hmem with rfl | rfl | rfl | rfl <;> decide
  · decide
  · decide
  · decide

/-- The directory that `tryLoadCode` makes for a task is the one that `JudgeCell` makes. A file of
the task is `WORK_DIR`, the number of the solution and an ending without a slash, so what is in
front of the last slash is the work directory. -/
theorem makeDir_codePath {config : Config} {task : TaskBase} (h : HasFiles config task)
    (hname : name ∈ task.workFiles) :
    makeDir fold refuse volume (getFilePath name) = makeDir fold refuse volume WORK_DIR := by
  rw [h.files, List.mem_map] at hname
  obtain ⟨ext, hext, rfl⟩ := hname
  -- none of the endings has a slash of either kind
  obtain ⟨hslash, hold⟩ := noSlash_of_mem_workExts hext
  -- the number has digits and a minus sign only
  have hnumber (ch : Char) (hdigit : ch.isDigit = false) (hminus : ch ≠ '-') :
      ch ∉ formatInt task.solutionID := notMem_formatInt hminus hdigit
  -- so the name starts behind the slash of `WORK_DIR`
  have hback : SLASH_USE ∉ formatInt task.solutionID ++ ext := fun hmem =>
    (List.mem_append.mp hmem).elim (hnumber _ (by decide) (by decide)) hslash
  have hname : WORK_DIR ++ formatInt task.solutionID ++ ext =
      "work".toList ++ SLASH_USE :: (formatInt task.solutionID ++ ext) := List.append_assoc ..
  -- and `formatSlash` changes nothing
  have hall : SLASH_OLD ∉ "work".toList ++ SLASH_USE :: (formatInt task.solutionID ++ ext) := by
    rw [List.mem_append, List.mem_cons, List.mem_append]
    rintro (hmem | hmem | hmem | hmem)
    · exact absurd hmem (by decide)
    · exact absurd hmem (by decide)
    · exact hnumber _ (by decide) (by decide) hmem
    · exact hold hmem
  -- what stands before the last slash is the directory
  have hpath : getFilePath (WORK_DIR ++ formatInt task.solutionID ++ ext) = "work".toList := by
    rw [hname]
    simp only [getFilePath, formatSlash_eq_self hall, findLastOf_append _ hback]
    exact List.take_left
  rw [hpath, makeDir_eq_of_spells spells_workDir]
  rfl

end OnlineJudger
