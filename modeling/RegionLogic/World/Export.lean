import RegionLogic.World.Compile
import RegionLogic.World.DataModule
import RegionLogic.World.Drawing

/-!
# Writing worlds

A finished world is written to a directory as JSON, as a data module and, unless that is not wanted,
as a drawing in the DOT language.

## Main definitions

* `dotLines`: the lines of a drawing
* `Job.writeWorld`: writes the files
-/

namespace RegionLogic

/-- The JSON document of a world. -/
def World.document (w : World) : Except Fault String := do
  return (← w.toJson).indented ++ "\n"

/-- The lines of boxes and arrows in the DOT language. A graph is strict if no arrow leads from a box to
itself. -/
def dotLines (boxes arrows : List (String × String)) : List String :=
  [if arrows.any fun a => a.1 == a.2 then "digraph \x7b" else "strict digraph \x7b"] ++
    boxes.map (fun b => b.1 ++ " [shape=box, label=" ++ b.2 ++ "];") ++
    arrows.map (fun a => a.1 ++ " -> " ++ a.2 ++ ";") ++
    ["\x7d"]

/-- Drawings are written in the DOT language. -/
instance : DrawingWriter where
  write boxes arrows := .ok ("".intercalate ((dotLines boxes arrows).map (· ++ "\n")))

/-- The path of the file that a setting names in a directory. -/
def Path.joinSetting (directory : Path) : Json → Except Fault Path
  | .str s => .ok (directory.join (ofText s))
  | v => .error (.shape (.notPathPart v.shape))

namespace Job

variable {m : Type → Type} [Monad m] [FileAccess m]

/-- Writes the files of a world, and returns their paths. The settings name the directory, unless one
is given, and the files. -/
def writeWorld (settings : Json) (directory : Option Path) (drawn : Bool) (w : World) :
    Job m (List Path) := do
  let output ← ofExcept (settings.fieldOr "output" (.obj []))
  let directory ← ofExcept do
    match directory with
    | some directory => return directory
    | none => Path.ofSetting (← output.fieldOr "directory" (.str "output"))
  let file (key name : String) : Except Fault Path := do
    directory.joinSetting (← output.fieldOr key (.str name))
  let document ← writeFile (← ofExcept (file "regions_file" "regions.json")) w.document
  let data ← writeFile (← ofExcept (file "python_file" "region_data.py")) w.moduleText
  if drawn then
    let drawing ← writeFile (← ofExcept (file "dot_file" "regionGraph.dot")) w.drawingText
    return [document, data, drawing]
  else return [document, data]

end Job

end RegionLogic
