import RegionLogic.Files.Access

/-!
# File trees

A file tree is a place where files are kept, as a value: directories, files with their texts, and a
current directory.

## Main definitions

* `FileTree`: the trees
* `FileTree.locate`: where a path leads
* `FileTree.readText`, `FileTree.makeDirectories`, `FileTree.writeText`: the operations

## Main results

* `FileTree.readText_put`: what has been put into a file is read from it
-/

namespace RegionLogic

/-- Directories and files, named by their steps from the top. -/
structure FileTree where
  /-- The directories other than the top. -/
  directories : List (List String) := []
  /-- The files with their texts. -/
  files : List (List String × String) := []
  current : List String := []
  deriving DecidableEq, Inhabited

namespace FileTree

/-- Whether a directory is at a place. -/
def isDirectoryAt (t : FileTree) (place : List String) : Bool :=
  place.isEmpty || t.directories.contains place

/-- The text of the file at a place. -/
def fileAt? (t : FileTree) (place : List String) : Option String :=
  (t.files.find? (·.1 = place)).map (·.2)

/-- Why a path leads nowhere. -/
inductive Blocked where
  /-- A directory on the way is missing. -/
  | missing
  /-- A file is on the way. -/
  | notDirectory
  deriving DecidableEq

/-- The fault of a path that leads nowhere. -/
def Blocked.fault (path : Path) : Blocked → Fault
  | missing => .missingFile path.text
  | notDirectory => .notDirectory path.text

/-- The place that one step leads to. -/
def step (place : List String) (name : String) : List String :=
  if name = ".." then place.dropLast else place ++ [name]

/-- The place that steps lead to. All places on the way have to be directories; at the last one there
need not be anything. -/
def follow (t : FileTree) (place : List String) : List String → Except Blocked (List String)
  | [] => .ok place
  | name :: steps =>
    if t.isDirectoryAt place then follow t (step place name) steps
    else if (t.fileAt? place).isSome then .error .notDirectory
    else .error .missing

/-- The place that a path leads to. -/
def locate (t : FileTree) (path : Path) : Except Blocked (List String) :=
  t.follow (if path.isAbsolute then [] else t.current) path.steps

/-- The place that a path for a file leads to; a null character cannot be in a name. -/
def placeOf (t : FileTree) (path : Path) : Except Fault (List String) :=
  if '\x00' ∈ path.text.toList then .error .nullInPath
  else (t.locate path).mapError (·.fault path)

/-- The text of a file. -/
def readText (t : FileTree) (path : Path) : Except Fault String := do
  let place ← t.placeOf path
  if t.isDirectoryAt place then throw (.isDirectory path.text)
  match t.fileAt? place with
  | some text => return text
  | none => throw (.missingFile path.text)

/-- Whether a path leads to a file. -/
def isFile (t : FileTree) (path : Path) : Bool := (t.readText path).isOk

/-- The tree with a file at a place. -/
def put (t : FileTree) (place : List String) (text : String) : FileTree :=
  { t with files := (place, text) :: t.files.filter (·.1 ≠ place) }

/-- The tree with a text written to a file. -/
def writeText (t : FileTree) (path : Path) (text : String) : Except Fault FileTree := do
  let place ← t.placeOf path
  if t.isDirectoryAt place then throw (.isDirectory path.text)
  if !t.isDirectoryAt place.dropLast then throw (.missingFile path.text)
  return t.put place text

/-- How making one directory ends. -/
inductive Making where
  /-- It is there now. -/
  | made (t : FileTree)
  /-- The directory above it is missing. -/
  | noParent
  /-- It cannot be made. -/
  | refused (fault : Fault)

/-- Makes one directory, unless it is there. -/
def makeDirectory (t : FileTree) (path : Path) : Making :=
  match t.locate path with
  | .error .missing => .noParent
  | .error .notDirectory => .refused (.notDirectory path.text)
  | .ok place =>
    if t.isDirectoryAt place then .made t
    else if (t.fileAt? place).isSome then .refused (.fileExists path.text)
    else .made { t with directories := place :: t.directories }

/-- Makes a directory and, if need be, those above it. -/
def makeDirectories (t : FileTree) (path : Path) : Except Fault FileTree :=
  if '\x00' ∈ path.text.toList then .error .nullInPath
  else
    match t.makeDirectory path with
    | .made t => .ok t
    | .refused fault => .error fault
    | .noParent =>
      if _h : path.steps = [] then .error (.missingFile path.text)
      else
        match t.makeDirectories path.parent with
        | .error fault => .error fault
        | .ok t =>
          match t.makeDirectory path with
          | .made t => .ok t
          | .refused fault => .error fault
          | .noParent => .error (.missingFile path.text)
termination_by path.steps.length
decreasing_by exact Path.length_parent_lt _h

/-- What has been put into a file is read from it. -/
theorem readText_put {t : FileTree} {path : Path} {place : List String} {text : String}
    (hp : (t.put place text).placeOf path = .ok place) (hd : t.isDirectoryAt place = false) :
    (t.put place text).readText path = .ok text := by
  have h : (t.put place text).isDirectoryAt place = false := hd
  have hf : (t.put place text).fileAt? place = some text := by simp [fileAt?, put]
  simp only [readText, hp, bind, Except.bind, h, hf]
  rfl

/-- The current directory, as an absolute path. -/
def currentPath (t : FileTree) : Path := ⟨"/", t.current⟩

/-- An operation that changes the tree or fails. -/
def attempt (f : FileTree → Except Fault FileTree) : StateM FileTree (Except Fault Unit) := do
  match f (← get) with
  | .ok t => set t; return .ok ()
  | .error fault => return .error fault

instance : FileAccess (StateM FileTree) where
  currentDirectory := return (← get).currentPath
  isFile path := return (← get).isFile path
  readText path := return (← get).readText path
  makeDirectories path := attempt (·.makeDirectories path)
  writeText path text := attempt (·.writeText path text)

end FileTree

end RegionLogic
