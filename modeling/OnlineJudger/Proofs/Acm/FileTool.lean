import OnlineJudger.Acm.FileTool
import OnlineJudger.Judger.JudgeTask
import Mathlib.Data.List.Nodup

/-!
# `OnlineJudger.Proofs.Acm.FileTool`: which entries `findFiles` takes

* `findFilesLoop_eq`: the loop visits every entry once, in the order of the listing.
* `findFiles_eq`: so `findFiles` is a filter of the listing.
* `findFiles_files_only_iff`: the filter lets exactly the files through if the bit of a device
  and the names of the two dots happen to tell the directories.
-/

set_option autoImplicit false

namespace OnlineJudger

namespace WIN32_FIND_DATA

/-- The entry is a directory, by the bit that the system sets. -/
def isDirectory (entry : WIN32_FIND_DATA) : Bool :=
  (entry.dwFileAttributes &&& FILE_ATTRIBUTE_DIRECTORY) != 0

/-- The entry has the bit that `isDir` tests. -/
def isDevice (entry : WIN32_FIND_DATA) : Bool :=
  (entry.dwFileAttributes &&& FILE_ATTRIBUTE_DEVICE) != 0

/-- One of the two names that every directory has in it. -/
def isDots (entry : WIN32_FIND_DATA) : Bool :=
  entry.cFileName == ".".toList || entry.cFileName == "..".toList

/-- The loop passes over this entry. -/
def isSkipped (entry : WIN32_FIND_DATA) : Bool := entry.isDots || entry.isDevice

end WIN32_FIND_DATA

/-- The name of a file in the result. -/
def resultName (path : Text) (unionPath : Bool) (entry : WIN32_FIND_DATA) : Text :=
  if unionPath then formatDirName path true ++ entry.cFileName else entry.cFileName

/-- The name of a result leads back to its entry, with the path in front of it or without. -/
theorem resultName_injective (path : Text) (unionPath : Bool) {entry entry' : WIN32_FIND_DATA}
    (h : resultName path unionPath entry = resultName path unionPath entry') :
    entry.cFileName = entry'.cFileName := by
  unfold resultName at h
  split at h
  · exact List.append_cancel_left h
  · exact h

/-! ### The loop -/

/-- The entries of the listing that pass the test, each once and in order. By induction on the
entries behind the current one; one pass appends one entry or none. -/
theorem findFilesLoop_eq (path : Text) (unionPath : Bool) (entry : WIN32_FIND_DATA)
    (entries : List WIN32_FIND_DATA) (vect : List Text) :
    findFilesLoop (formatDirName path true) unionPath ⟨entry, some entries⟩ vect =
      vect ++
        ((entry :: entries).filter fun e => !e.isSkipped).map (resultName path unionPath) := by
  -- what one pass appends
  have hbody (entry : WIN32_FIND_DATA) (handle : Option (List WIN32_FIND_DATA))
      (vect : List Text) :
      (if (CFindFile.mk entry handle).isDot || (CFindFile.mk entry handle).isDir then vect
        else if unionPath then vect ++ [formatDirName path true ++ entry.cFileName]
        else vect ++ [entry.cFileName]) =
      vect ++ ([entry].filter fun e => !e.isSkipped).map (resultName path unionPath) := by
    have hskip : ((CFindFile.mk entry handle).isDot || (CFindFile.mk entry handle).isDir) =
        entry.isSkipped := rfl
    rw [hskip]
    cases hentry : entry.isSkipped with
    | true =>
      rw [if_pos rfl, List.filter_cons_of_neg (by simp [hentry]), List.filter_nil, List.map_nil,
        List.append_nil]
    | false =>
      rw [if_neg Bool.false_ne_true, List.filter_cons_of_pos (by simp [hentry]), List.filter_nil,
        List.map_singleton, resultName]
      split <;> rfl
  induction entries generalizing entry vect with
  | nil =>
    rw [findFilesLoop]
    exact hbody entry (some []) vect
  | cons next entries ih =>
    rw [findFilesLoop]
    refine (ih next _).trans ?_
    have hsplit : (entry :: next :: entries).filter (fun e => !e.isSkipped) =
        [entry].filter (fun e => !e.isSkipped) ++
          (next :: entries).filter (fun e => !e.isSkipped) := by
      rw [← List.filter_append, List.singleton_append]
    rw [hsplit, List.map_append, ← List.append_assoc]
    exact congrArg (· ++ _) (hbody entry (some (next :: entries)) vect)

/-- `findFiles` returns the entries that pass the test. -/
theorem findFiles_eq (files : Text → List WIN32_FIND_DATA) (vect : List Text) (path ext : Text)
    (unionPath : Bool) :
    let names := ((files (formatDirName path true ++ ext)).filter fun e => !e.isSkipped).map
      (resultName path unionPath)
    findFiles files vect path ext unionPath = (!names.isEmpty, names) := by
  simp only [findFiles, CFindFile.findFirst]
  cases files (formatDirName path true ++ ext) with
  | nil => rfl
  | cons entry entries => simp only [findFilesLoop_eq, List.nil_append]

/-! ### Files only -/

/-- What is asked of a call: the files of the listing, each once and in its order, are the result
whatever was in `vect`, and the tests of a task are these files. -/
structure FilesOnly (files : Text → List WIN32_FIND_DATA) (path ext : Text) (unionPath : Bool) :
    Prop where
  result : ∀ vect,
    let names := ((files (formatDirName path true ++ ext)).filter fun e => !e.isDirectory).map
      (resultName path unionPath)
    findFiles files vect path ext unionPath = (!names.isEmpty, names)
  testCount : ∀ (config : Config) (task : TaskBase) (vect : List Text), task.solutionID ≠ 0 →
    (task.initializeData config (findFiles files vect path ext unionPath).2).getTestDataCount =
      (files (formatDirName path true ++ ext)).countP fun e => !e.isDirectory

/-- A task has as many tests as `findFiles` has found. -/
theorem getTestDataCount_initializeData (config : Config) (testData : List Text)
    {task : TaskBase} (h : task.solutionID ≠ 0) :
    (task.initializeData config testData).getTestDataCount = testData.length := by
  rw [TaskBase.initializeData, if_neg h]
  dsimp only
  split
  · rw [TaskBase.setTestDataIndex, if_neg (show ¬ ((0 : Nat) : Int) = -1 by decide)]
    rfl
  · rfl

/-- Two filters of a list without repetitions take the same elements. -/
theorem forall_eq_of_filter_map_eq {α β : Type} {f : α → β} {p q : α → Bool} {l : List α}
    (hnodup : (l.map f).Nodup) (h : (l.filter p).map f = (l.filter q).map f) :
    ∀ a ∈ l, p a = q a := by
  have hmem {p : α → Bool} {a : α} (ha : a ∈ l) : f a ∈ (l.filter p).map f ↔ p a = true := by
    rw [List.mem_map]
    constructor
    · rintro ⟨b, hb, hfb⟩
      obtain ⟨hbl, hpb⟩ := List.mem_filter.mp hb
      rwa [← List.inj_on_of_nodup_map hnodup hbl ha hfb]
    · intro hpa
      exact ⟨a, List.mem_filter.mpr ⟨ha, hpa⟩, rfl⟩
  intro a ha
  rw [Bool.eq_iff_iff, ← hmem ha, ← hmem ha, h]

/-- `findFiles` finds the files only, if every entry that matches the pattern is passed over exactly
when it is a directory. In a listing that has no name twice this is the only way. The listing may
have any entries in any order, since the order is the one of the file system. -/
theorem findFiles_files_only_iff (files : Text → List WIN32_FIND_DATA) (path ext : Text)
    (unionPath : Bool) :
    let listing := files (formatDirName path true ++ ext)
    ((∀ entry ∈ listing, (entry.isDots = true ∨ entry.isDevice = true) ↔
        entry.isDirectory = true) → FilesOnly files path ext unionPath) ∧
      ((listing.map WIN32_FIND_DATA.cFileName).Nodup → FilesOnly files path ext unionPath →
        ∀ entry ∈ listing, (entry.isDots = true ∨ entry.isDevice = true) ↔
          entry.isDirectory = true) := by
  intro listing
  have hskipped (entry : WIN32_FIND_DATA) :
      (entry.isDots = true ∨ entry.isDevice = true) ↔ entry.isSkipped = true := by
    rw [WIN32_FIND_DATA.isSkipped, Bool.or_eq_true]
  simp only [hskipped]
  constructor
  · intro hcond
    have hfilter : listing.filter (fun e => !e.isSkipped) =
        listing.filter (fun e => !e.isDirectory) := by
      refine List.filter_congr fun entry hentry => ?_
      rw [Bool.eq_iff_iff.mpr (hcond entry hentry)]
    have hresult (vect : List Text) := findFiles_eq files vect path ext unionPath
    simp only [] at hresult
    refine ⟨?_, ?_⟩
    · intro vect
      rw [← hfilter]
      exact hresult vect
    · intro config task vect htask
      rw [getTestDataCount_initializeData config _ htask, hresult vect, List.length_map, hfilter,
        List.countP_eq_length_filter]
  · intro hnodup hfiles entry hentry
    have heq := congrArg Prod.snd (hfiles.result [])
    rw [findFiles_eq files [] path ext unionPath] at heq
    have hnames : (listing.map (resultName path unionPath)).Nodup :=
      List.pairwise_map.mpr ((List.pairwise_map.mp hnodup).imp fun hne h =>
        hne (resultName_injective path unionPath h))
    have := forall_eq_of_filter_map_eq hnames heq entry hentry
    rw [← Bool.eq_iff_iff]
    exact Bool.not_inj this

/-- A directory whose name matches the pattern is taken for a test. `isDir` looks at the attribute
of a device, which a directory does not have. -/
theorem findFiles_not_files_only_directory :
    let listing : List WIN32_FIND_DATA :=
      [⟨FILE_ATTRIBUTE_DIRECTORY, "old.out".toList⟩, ⟨0x20, "1.out".toList⟩]
    ¬ FilesOnly (fun _ => listing) "data".toList "*.out".toList true := by
  intro listing h
  have heq := congrArg Prod.snd (h.result [])
  rw [findFiles_eq] at heq
  exact absurd heq (by decide)

end OnlineJudger
