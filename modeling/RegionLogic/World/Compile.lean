import RegionLogic.Modifier.Reducer
import RegionLogic.Region.Ingestion
import RegionLogic.Waypoint.Inlining
import RegionLogic.World.Basic
import RegionLogic.World.Source

/-!
# Compiling worlds

The way from a world file to a finished world: the objects are read, the chosen waypoints inlined and
modifier runs shortened; the region graph is built, its start region chosen, and the graph simplified.

## Main definitions

* `prepareObjects`: inlining and shortening
* `Job.keptRegions`: the regions to keep
* `Job.compile`: all of it
-/

namespace RegionLogic

/-- The objects with the waypoints inlined that the settings or the further patterns in `more` choose,
and with their modifier runs shortened if the settings ask for it. -/
def prepareObjects (settings more : Json) (objects : List LogicObject) :
    Logged (List LogicObject) := do
  let model ← (ClassificationModel.ofSettings settings : Except Fault _)
  let inline ← (do (← settings.fieldOr "waypoints" (.obj [])).fieldOr "inline" (.arr []) :
    Except Fault Json)
  let patterns := (← (inline.items : Except Fault _)) ++ (← (more.items : Except Fault _))
  let inlined ←
    if patterns.isEmpty then pure objects
    else do
      let selection ← (WaypointSelection.read (patterns.map Json.spelling) : Except Fault _)
      let left ← selection.inline model.classify objects
      record .info .pipeline s!"Inlined {objects.length - left.length} waypoints"
      pure left
  let enabled ← (do (← settings.fieldOr "reducer" (.obj [])).fieldOr "enabled" (.bool false) :
    Except Fault Json)
  if enabled.isTruthy then
    (← (Reducer.ofSettings settings : Except Fault _)).reduceObjects inlined
  else return inlined

/-- Adds objects to the graph, one after the other. -/
def Building.ingestAll (objects : List LogicObject) : Building Unit := objects.forM ingest

/-- Makes the region that a setting names the start region. -/
def Building.relabelBySetting (v : Json) : Building Unit := do
  relabelAsStart (← (v.name : Except Fault Name))

/-- The path that a setting gives. -/
def Path.ofSetting : Json → Except Fault Path
  | .str s => .ok (ofText s)
  | v => .error (.shape (.notPath v.shape))

namespace Job

variable {m : Type → Type} [Monad m]

/-- The work on a graph, and the graph that it leaves. -/
def ofBuilding {α : Type} (g : RegionGraph) (work : Building α) : Job m (α × RegionGraph) := do
  let (result, session) := work.outcome { graph := g }
  recordAll session.events
  return (← ofExcept result, session.graph)

variable [FileAccess m]

/-- The regions to keep: those that the settings list, those in the name file that the settings give,
and those that `extra` lists, which is read last. -/
def keptRegions (settings extra : Json) : Job m NameSet := do
  let input ← ofExcept (settings.fieldOr "input" (.obj []))
  let listed ← ofExcept do (← input.fieldOr "keep_regions" (.arr [])).nameSet
  let file ← ofExcept (input.fieldOr "keep_regions_file" .null)
  let filed ← if file.isTruthy then readNames (← ofExcept (Path.ofSetting file)) else pure ∅
  return listed ∪ filed ∪ (← ofExcept extra.nameSet)

/-- The file of the world: the given one, or the one in the settings. -/
def worldFile (input : Json) (path : Option Path) : Except Fault Path :=
  match path with
  | some path => .ok path
  | none => do
    let v ← input.fieldOr "world" .null
    if v.isTruthy then Path.ofSetting v else throw .noWorld

/-- The region to become the start region: the given one, or the one in the settings. -/
def startSetting (input start : Json) : Except Fault Json :=
  if start.isTruthy then .ok start else input.fieldOr "start_term" .null

/-- What is chosen for a compilation beside the settings. -/
structure CompileOptions where
  world : Option Path := none
  /-- The region to become the start region. -/
  start : Json := .null
  /-- The list of further regions to keep. -/
  keep : Json := .arr []
  /-- The list of further patterns of waypoints to inline. -/
  inline : Json := .arr []

/-- Compiles a world file to a world. -/
def compile (settings : Json) (options : CompileOptions) : Job m World := do
  let input ← ofExcept (settings.fieldOr "input" (.obj []))
  let path ← ofExcept (worldFile input options.world)
  let objects ← ofLogged (prepareObjects settings options.inline (← readWorld path))
  let (_, g) ← ofBuilding .fresh (Building.ingestAll objects)
  let start ← ofExcept (startSetting input options.start)
  let (_, g) ← ofBuilding g do if start.isTruthy then Building.relabelBySetting start
  let keep ← keptRegions settings options.keep
  let model ← ofExcept (ClassificationModel.ofSettings settings)
  let cleanup ← ofExcept (CleanupOptions.ofSettings settings)
  let (w, _) ← ofBuilding g (Building.build model.classify keep cleanup)
  record .info .pipeline <|
    s!"Built {w.regions.length} regions, {w.locations.length} locations, " ++
      s!"{w.transitions.length} transitions"
  return w

end Job

end RegionLogic
