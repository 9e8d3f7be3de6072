import OnlineJudger.LZData.LZData

/-!
# `OnlineJudger.Acm.FileTool`: the files of a directory

The model of `findFiles` in `acm/FileTool.cpp` and of the finder `cFindFile` in
`Commen/FileTool.h`. What `FindFirstFile` finds for a pattern is an argument: the entries, in
the order in which `FindNextFile` delivers them.

`makeDir` works on a `Volume`. The system takes a path apart at the slashes, and two names are the
same if its letter case does not tell them apart: `fold` gives the spelling that the volume keeps.
What the system does with the dots and blanks at the end of a name is left out. It drops them, and
`.` and `..` stand for other directories. So what is shown is about paths without such names.
-/

set_option autoImplicit false

namespace OnlineJudger

/-- `FILE_ATTRIBUTE_DIRECTORY` of the Windows headers. -/
def FILE_ATTRIBUTE_DIRECTORY : UInt32 := 0x10

/-- `FILE_ATTRIBUTE_DEVICE` of the Windows headers. -/
def FILE_ATTRIBUTE_DEVICE : UInt32 := 0x40

/-- `WIN32_FIND_DATA`, as far as it is read: the attributes and the name of an entry. -/
structure WIN32_FIND_DATA where
  dwFileAttributes : UInt32
  cFileName : Text
  deriving DecidableEq, Repr

/-! ### Names of directories -/

/-- The slash of the system. -/
def SLASH_USE : Char := '\\'
/-- The other one, which the system takes as well. -/
def SLASH_OLD : Char := '/'

/-- `formatSlash`: one kind of slash. -/
def formatSlash (name : Text) : Text := name.map fun ch => if ch = SLASH_OLD then SLASH_USE else ch

/-- `formatDirName`: one kind of slash, and one slash at the end or none. An empty name stays
empty. -/
def formatDirName (dirName : Text) (appendSlash : Bool) : Text :=
  if dirName.isEmpty then dirName
  else
    let dirName := formatSlash dirName
    if appendSlash then
      if dirName.getLast? ≠ some SLASH_USE then dirName ++ [SLASH_USE] else dirName
    else if dirName.getLast? = some SLASH_USE then dirName.dropLast
    else dirName

/-! ### The finder -/

/-- `cFindFile`. The handle stands for the entries that are still to come, in the order of the file
system. `none` is `NULL`. -/
structure CFindFile where
  data : WIN32_FIND_DATA := ⟨0, []⟩
  handle : Option (List WIN32_FIND_DATA) := none

namespace CFindFile

/-- `findFirst`. `FindFirstFile` fails for a pattern that nothing matches. -/
def findFirst (files : Text → List WIN32_FIND_DATA) (name : Text) : Bool × CFindFile :=
  match files name with
  | [] => (false, { handle := none })
  | entry :: entries => (true, { data := entry, handle := some entries })

/-- `findNext`: the next entry of the pattern, if there is one. Behind the last one the handle
stays. -/
def findNext (finder : CFindFile) : Bool × CFindFile :=
  match finder.handle with
  | none => (false, finder)
  | some [] => (false, finder)
  | some (entry :: entries) => (true, { data := entry, handle := some entries })

/-- `fileName`: the name of the entry that was found last. -/
def fileName (finder : CFindFile) : Text := finder.data.cFileName

/-- `isDot`: the names `.` and `..`. -/
def isDot (finder : CFindFile) : Bool :=
  let fname := finder.fileName
  fname == ".".toList || fname == "..".toList

/-- `isDir` tests the bit of a device. The bit of a directory is another one. -/
def isDir (finder : CFindFile) : Bool :=
  (finder.data.dwFileAttributes &&& FILE_ATTRIBUTE_DEVICE) != 0

/-- The number of entries that are still to come. Each pass of the loop of `findFiles` takes one, so
the loop ends. -/
def left (finder : CFindFile) : Nat := (finder.handle.getD []).length

/-- A `findNext` that succeeds takes an entry. -/
theorem left_findNext {finder finder' : CFindFile} (h : finder.findNext = (true, finder')) :
    finder'.left < finder.left := by
  unfold findNext at h
  split at h
  · cases h
  · cases h
  · next entry entries hhandle =>
    cases h
    rw [left, left, hhandle]
    exact Nat.lt_succ_self _

end CFindFile

/-! ### `findFiles` -/

/-- The loop of `findFiles`. `continue` goes to the test of the loop, so an entry that is passed
over does not end it. -/
def findFilesLoop (formatedPath : Text) (unionPath : Bool) (finder : CFindFile)
    (vect : List Text) : List Text :=
  let vect :=
    if finder.isDot || finder.isDir then vect
    else if unionPath then vect ++ [formatedPath ++ finder.fileName]
    else vect ++ [finder.fileName]
  match _hnext : finder.findNext with
  | (false, _) => vect
  | (true, finder) => findFilesLoop formatedPath unionPath finder vect
termination_by finder.left
decreasing_by exact CFindFile.left_findNext _hnext

/-- `findFiles`: the result and the new content of `vect`. What was in `vect` before is cleared, and
the result is whether anything has come into it. -/
def findFiles (files : Text → List WIN32_FIND_DATA) (_vect : List Text) (path ext : Text)
    (unionPath : Bool) : Bool × List Text :=
  -- `vect.clear()`
  let vect : List Text := []
  let formatedPath := formatDirName path true
  let tempName := formatedPath ++ ext
  match CFindFile.findFirst files tempName with
  | (false, _) => (false, vect)
  | (true, finder) =>
    let vect := findFilesLoop formatedPath unionPath finder vect
    (!vect.isEmpty, vect)

/-! ### Parts of a name -/

/-- `find_last_of` with one character. `none` is `npos`. -/
def findLastOf (str : Text) (ch : Char) : Option Nat :=
  (str.reverse.findIdx? (· == ch)).map fun k => str.length - 1 - k

/-- `getFilePath`: the path in front of a name. A name without a slash has the empty path. -/
def getFilePath (filename : Text) : Text :=
  let tempName := formatSlash filename
  match findLastOf tempName SLASH_USE with
  | none => []
  | some pos => tempName.take pos

/-- A name gets shorter at most by its last slash. -/
theorem length_formatDirName_false_le (dirName : Text) :
    (formatDirName dirName false).length ≤ dirName.length := by
  have hslash : (formatSlash dirName).length = dirName.length := List.length_map ..
  unfold formatDirName
  simp only [Bool.false_eq_true, if_false]
  split_ifs with hempty hlast
  · exact Nat.le_refl _
  · rw [List.length_dropLast, hslash]
    exact Nat.sub_le _ _
  · exact Nat.le_of_eq hslash

/-- A path is shorter than the name. -/
theorem length_getFilePath_lt {filename : Text} (h : getFilePath filename ≠ []) :
    (getFilePath filename).length < filename.length := by
  have hslash : (formatSlash filename).length = filename.length := List.length_map ..
  simp only [getFilePath] at h ⊢
  split at h
  · exact absurd rfl h
  · next pos hpos =>
    obtain ⟨k, hk, rfl⟩ := Option.map_eq_some_iff.mp hpos
    have hlt := (List.findIdx?_eq_some_iff_getElem.mp hk).1
    rw [List.length_reverse] at hlt
    rw [List.length_take]
    omega

/-! ### Directories -/

/-- What an entry of a volume is. A directory cannot be made where a file stands. -/
inductive EntryKind where
  | dir
  | file
  deriving DecidableEq, Repr

/-- What stands under a path, from the current directory on. The names are folded, since the system
does not tell the two letter cases apart. -/
abbrev Volume := List Text → Option EntryKind

/-- The system takes a path apart, and folds its names. Empty names between two slashes count for
nothing. -/
def components (fold : Text → Text) (name : Text) : List Text :=
  (((formatSlash name).splitOn SLASH_USE).filter (· ≠ [])).map fold

/-- `fileExist`. `GetFileAttributes` fails for a path that is not there, and for the empty one. -/
def fileExist (fold : Text → Text) (volume : Volume) (name : Text) : Bool :=
  name ≠ [] && (volume (components fold name)).isSome

/-- `makeDirDirect`: `CreateDirectory` of a path that is not there yet. The system may refuse. -/
def makeDirDirect (fold : Text → Text) (refuse : List Text → Bool) (volume : Volume) (dir : Text) :
    Bool × Volume :=
  let path := components fold dir
  if dir = [] ∨ volume path ≠ none ∨ volume path.dropLast ≠ some .dir ∨ refuse path = true then
    (false, volume)
  else (true, fun p => if p = path then some .dir else volume p)

/-- `makeDir`: the path in front of the last name first, and then the directory itself. A path that
is there, as a file or a directory, is left alone. -/
def makeDir (fold : Text → Text) (refuse : List Text → Bool) (volume : Volume) (dir : Text) :
    Bool × Volume :=
  if fileExist fold volume dir then (true, volume)
  else
    let tempPath := formatDirName dir false
    let parentPath := getFilePath tempPath
    if _h : parentPath ≠ [] then
      match makeDir fold refuse volume parentPath with
      | (false, volume) => (false, volume)
      | (true, volume) => makeDirDirect fold refuse volume tempPath
    else makeDirDirect fold refuse volume tempPath
termination_by dir.length
decreasing_by exact Nat.lt_of_lt_of_le (length_getFilePath_lt _h) (length_formatDirName_false_le _)

end OnlineJudger
