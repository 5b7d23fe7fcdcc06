import RegionLogic.Json.Printer
import RegionLogic.Region.Cleanup
import RegionLogic.Region.Placement

/-!
# Finished worlds

A region graph that is placed soundly and simplified is handed on as a world: its regions, locations
and transitions in order, and the region of each transition.

## Main definitions

* `World`: the worlds
* `World.toJson`: a world as a JSON value
* `Building.build`: the world of a region graph

## Main results

* `World.mem_regionsOf`: the table of transitions is that of the world
-/

namespace RegionLogic

/-- A finished region graph. -/
structure World where
  regions : List Region
  locations : List Site
  transitions : List Site
  /-- The region in which each transition is placed. -/
  regionOfTransition : List (Name × Name)
  deriving DecidableEq, Inhabited

/-- The name of a field that stands for a name. -/
def Name.key : Name → String
  | text s => s
  | odd v => v.toJson.compact

namespace World

/-- The region of a name. -/
def region? (w : World) (name : Name) : Option Region := w.regions.find? (·.name = name)

/-- The location of a name. -/
def location? (w : World) (name : Name) : Option Site := w.locations.find? (·.name = name)

/-- The regions of transitions, for the transitions in a list. -/
def regionsOf (w : World) (names : List Name) : List (Name × Name) :=
  names.filterMap fun name => (Entries.find? w.regionOfTransition name).map (name, ·)

/-- The names of the transitions that are placed. -/
def placedTransitions (w : World) : NameSet := .ofList (Entries.keys w.regionOfTransition)

theorem mem_regionsOf {w : World} {names : List Name} {name region : Name} :
    (name, region) ∈ w.regionsOf names ↔
      name ∈ names ∧ Entries.find? w.regionOfTransition name = some region := by
  simp only [regionsOf, List.mem_filterMap, Option.map_eq_some_iff, Prod.mk.injEq]
  constructor
  · rintro ⟨n, hn, r, hr, rfl, rfl⟩
    exact ⟨hn, hr⟩
  · rintro ⟨hn, hr⟩
    exact ⟨name, hn, region, hr, rfl, rfl⟩

/-- The regions of all transitions, ordered by the name of the transition. -/
def regionsByTransition (w : World) : Except Fault (List (Name × Name)) := do
  return w.regionsOf (← w.placedTransitions.inOrder)

/-- The lists of the world by their names, as JSON values. -/
def listFields (w : World) : Except Fault (List (String × Json)) := do
  return [("Regions", .arr (← w.regions.mapM (·.toJson))),
    ("Locations", .arr (← w.locations.mapM (·.locationJson))),
    ("Transitions", .arr (← w.transitions.mapM (·.transitionJson)))]

/-- The name of the table of transitions and their regions. -/
def transitionTable : String := "TransitionToRegionMap"

/-- The world as a JSON value; its sets of names are in increasing order. -/
def toJson (w : World) : Except Fault Json := do
  let lists ← w.listFields
  let table := (← w.regionsByTransition).map fun t => (t.1.key, t.2.toJson)
  return .obj (lists ++ [(transitionTable, .obj table)])

end World

/-- The region in which each transition is placed; of several the last one counts. -/
def RegionGraph.regionOfTransition (g : RegionGraph) : List (Name × Name) :=
  g.regions.foldl (fun table r =>
    r.2.transitions.foldl (fun table name => Entries.set table name r.2.name) table) []

/-- The world of a graph as it is. -/
def RegionGraph.world (g : RegionGraph) : World where
  regions := g.regions.map (·.2)
  locations := g.locations.map (·.2)
  transitions := g.transitions.map (·.2)
  regionOfTransition := g.regionOfTransition

/-- Checks the placement, simplifies the graph, and hands it on as a world. -/
def Building.build (classify : Classifier) (keep : NameSet) (options : CleanupOptions) :
    Building World := do
  validate
  let report ← clean classify keep options
  log .info s!"Cleanup finished: {report.text}"
  return (← graph).world

end RegionLogic
