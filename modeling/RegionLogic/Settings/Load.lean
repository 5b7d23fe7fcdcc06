import RegionLogic.Job
import RegionLogic.Settings.Environment
import RegionLogic.Settings.Merge
import RegionLogic.Toml.Reader

/-!
# Loading settings

Settings come from three layers: the defaults, a settings file laid over them, and the environment.
Unless a file is named, the nearest file `.logicgraph.toml` upwards from a directory is used.

## Main definitions

* `Settings.findFile`: the nearest settings file
* `Settings.load`: the settings that a file gives
* `Settings.current`: the settings in effect
-/

namespace RegionLogic.Settings

/-- The name of settings files. -/
def fileName : String := ".logicgraph.toml"

variable {m : Type → Type} [Monad m] [FileAccess m]

/-- The first of some paths that leads to a file. -/
def firstFile : List Path → Job m (Option Path)
  | [] => return none
  | path :: paths => do
    if ← Job.files (FileAccess.isFile path) then return some path else firstFile paths

/-- The settings file nearest to the directory `start`, in it or in a directory above it. -/
def findFile (start : Path) : Job m (Option Path) := do
  let directory := Path.resolve (← Job.files FileAccess.currentDirectory) start
  firstFile (directory.andAbove.map (·.join ⟨"", [fileName]⟩))

/-- The settings that a text gives, over the defaults and under the environment. -/
def ofText (environment : List (String × String)) (text : String) :
    Except Fault (List (String × Json)) := do
  let fields ← (Toml.read text).mapError .settings
  applyEnvironment environment (merge defaults fields)

/-- The settings that a file gives. -/
def load (environment : List (String × String)) (path : Path) : Job m (List (String × Json)) := do
  Job.ofExcept (ofText environment (← Job.readFile path))

/-- The settings in effect: those of the named file, else of the file nearest to the directory
`start`, else the defaults. -/
def current (environment : List (String × String)) (path : Option Path)
    (start : Path) : Job m (List (String × Json)) := do
  let found ←
    match path with
    | some path => pure (some path)
    | none => findFile start
  match found with
  | some path => load environment path
  | none => Job.ofExcept (applyEnvironment environment defaults)

end RegionLogic.Settings
