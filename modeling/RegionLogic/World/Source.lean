import RegionLogic.Job
import RegionLogic.LogicObject

/-!
# World files

A world file is a JSON table that lists logic objects; a name file is a JSON list of names.

## Main definitions

* `WorldEntry.readAll`: the entries of a world
* `Job.readEntries`, `Job.readWorld`, `Job.readNames`: reading the files
-/

namespace RegionLogic

/-- The name of the list of logic objects in a world file. -/
def objectsField : String := "LogicObjects"

/-- The entries of the world that a value gives. `path` names its file. -/
def WorldEntry.readAll (path : Path) (v : Json) : Except Fault (List WorldEntry) :=
  match v.field? objectsField with
  | none => .error (.notWorld path.text)
  | some objects => do (← objects.items).mapM WorldEntry.read

/-- The names that a value lists. `path` names its file. -/
def NameSet.readList (path : Path) (v : Json) : Except Fault NameSet :=
  match v with
  | .arr items =>
    match items.mapM Json.text with
    | .ok names => .ok (.ofList (names.map .text))
    | .error _ => .error (.notNames path.text)
  | _ => .error (.notNames path.text)

namespace Job

variable {m : Type → Type} [Monad m] [FileAccess m]

/-- The entries of a world file. -/
def readEntries (path : Path) : Job m (List WorldEntry) := do
  let entries ← ofExcept (WorldEntry.readAll path (← readJson path))
  record .info .reader s!"Loaded {entries.length} logic objects from {path.text}"
  return entries

/-- The logic objects of a world file. -/
def readWorld (path : Path) : Job m (List LogicObject) := do
  ofExcept ((← readEntries path).mapM (·.toObject))

/-- The names in a name file. -/
def readNames (path : Path) : Job m NameSet := do
  ofExcept (NameSet.readList path (← readJson path))

end Job

end RegionLogic
