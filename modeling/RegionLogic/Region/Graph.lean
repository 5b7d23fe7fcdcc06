import RegionLogic.Log
import RegionLogic.Region.Basic
import RegionLogic.Requirement.Clause

/-!
# The region graph

The graph owns all regions, locations and transitions; they are addressed by name. Beside the exits
it keeps an index of the regions that have an exit into each region. The operations on the graph may
fail halfway; the graph then stays as far as it has been changed.

## Main definitions

* `RegionGraph`: the graph
* `RegionGraph.addEdge`, `RegionGraph.disconnect`: the two operations that change edges
* `Building`: operations on a graph that record events and may fail
* `connect`, `redirect`, `removeRegion`: adding a branch, leading an edge elsewhere, taking a region out
* `RegionGraph.traverseLogic`: a change of every list of alternatives in the graph
-/

namespace RegionLogic

/-- Regions, what is placed in them, and how they are connected. -/
structure RegionGraph where
  /-- The regions by name. -/
  regions : List (Name × Region) := []
  /-- The names of the regions with an exit into each region. -/
  parents : List (Name × List Name) := []
  /-- The locations by name. -/
  locations : List (Name × Site) := []
  /-- The transitions by name. -/
  transitions : List (Name × Site) := []
  deriving DecidableEq, Inhabited

namespace RegionGraph

/-- The region of a name. -/
def region? (g : RegionGraph) (name : Name) : Option Region := Entries.find? g.regions name

/-- The names of the regions. -/
def names (g : RegionGraph) : List Name := Entries.keys g.regions

/-- The names of the regions with an exit into a region. -/
def parentsOf (g : RegionGraph) (name : Name) : List Name :=
  (Entries.find? g.parents name).getD []

/-- The exit from one region to another. -/
def exit? (g : RegionGraph) (parent target : Name) : Option Exit :=
  (g.region? parent).bind (·.exitTo? target)

/-- The alternatives of the exit from one region to another; without an exit there are none. -/
def exitLogic (g : RegionGraph) (parent target : Name) : List Branch :=
  (g.exit? parent target).elim [] (·.logic)

/-- The graph with a region changed by `f`. -/
def adjustRegion (g : RegionGraph) (name : Name) (f : Region → Region) : RegionGraph :=
  { g with regions := Entries.adjust g.regions name f }

/-- The graph with a new region. -/
def addRegion (g : RegionGraph) (name : Name) : RegionGraph :=
  { g with
    regions := Entries.set g.regions name { name }
    parents := if Entries.has g.parents name then g.parents else Entries.set g.parents name [] }

/-- The graph with a region of the given name. -/
def ensureRegion (g : RegionGraph) (name : Name) : RegionGraph :=
  if (g.region? name).isSome then g else g.addRegion name

/-- The graph with the start region alone. -/
def fresh : RegionGraph := addRegion {} startRegion

/-- The graph with further branches on the edge from `parent` to `target`. Regions that are not there
are created. -/
def addEdge (g : RegionGraph) (parent : Name) (branches : List Branch) (target : Name) :
    RegionGraph :=
  let g := ((g.ensureRegion parent).ensureRegion target).adjustRegion parent
    (·.addBranches target branches)
  { g with parents := Entries.set g.parents target (addOnce (g.parentsOf target) parent) }

/-- The graph without the edge from `parent` to `target`. The region `parent` has to be there. -/
def disconnect (g : RegionGraph) (parent target : Name) : Except Fault RegionGraph :=
  if (g.region? parent).isSome then
    let g := g.adjustRegion parent (·.removeExits target)
    .ok { g with parents := Entries.adjust g.parents target (·.erase parent) }
  else .error (.missingKey parent)

/-- Every edge: the region that it leaves, and the exit. -/
def connections (g : RegionGraph) : List (Name × Exit) :=
  g.regions.flatMap fun r => r.2.exits.map (r.2.name, ·)

/-- All lists of alternatives: of the exits, the locations and the transitions. -/
def logicLists (g : RegionGraph) : List (List Branch) :=
  g.connections.map (·.2.logic) ++ g.locations.map (·.2.logic) ++ g.transitions.map (·.2.logic)

/-- The graph with every list of alternatives changed by `f`, one after the other: those of the
exits, the locations and the transitions. -/
def traverseLogic {m : Type → Type} [Monad m] (f : List Branch → m (List Branch))
    (g : RegionGraph) : m RegionGraph := do
  let sites (s : Name × Site) : m (Name × Site) := do
    return (s.1, { s.2 with logic := ← f s.2.logic })
  let regions ← g.regions.mapM fun r => do
    let exits ← r.2.exits.mapM fun e => do return { e with logic := ← f e.logic }
    return (r.1, { r.2 with exits })
  let locations ← g.locations.mapM sites
  let transitions ← g.transitions.mapM sites
  return { g with regions, locations, transitions }

end RegionGraph

/-! ## Operations that may fail -/

/-- A graph in work and the events recorded so far. -/
structure Session where
  graph : RegionGraph := .fresh
  /-- The events, the first one first. -/
  events : List Event := []
  deriving Inhabited

/-- An operation on a graph that records events and may fail. What it has changed and recorded before
it fails stays. -/
abbrev Building := ExceptT Fault (StateM Session)

namespace Building

/-- The outcome of an operation on a session, and the session that it leaves. -/
def outcome {α : Type} (m : Building α) (s : Session) : Except Fault α × Session := m.run.run s

/-- The graph as it is. -/
def graph : Building RegionGraph := return (← get).graph

/-- Changes the graph. -/
def change (f : RegionGraph → RegionGraph) : Building Unit :=
  modify fun s => { s with graph := f s.graph }

/-- Records an event. -/
def log (level : Level) (message : String) : Building Unit :=
  modify fun s => { s with events := s.events ++ [⟨level, .builder, message⟩] }

/-- The region of a name, which has to be there. -/
def region (name : Name) : Building Region := do
  match (← graph).region? name with
  | some r => return r
  | none => throw (.missingKey name)

/-- Takes away the edge from `parent` to `target`. -/
def disconnect (parent target : Name) : Building Unit := do
  let g ← ((← graph).disconnect parent target : Except Fault _)
  change fun _ => g

/-- Leads the edge from `other` to `old` to `new` instead. -/
def redirect (old new other : Name) : Building Unit := do
  let r ← region other
  disconnect other old
  match r.exitTo? old with
  | some e => change (·.addEdge other e.logic new)
  | none => pure ()

/-- Takes a region out of the graph, with the edges into it and out of it. -/
def removeRegion (name : Name) : Building Unit := do
  let _ ← region name
  (← graph).parentsOf name |>.forM (disconnect · name)
  let r ← region name
  r.targets.forM (disconnect name ·)
  change fun g =>
    { g with regions := Entries.erase g.regions name, parents := Entries.erase g.parents name }

/-- Adds a branch to the edge from `parent` to `target`. The exit is returned as it is then. -/
def connect (parent : Name) (branch : Branch) (target : Name) : Building (Option Exit) := do
  change (·.addEdge parent [branch] target)
  return (← graph).exit? parent target

end Building

end RegionLogic
