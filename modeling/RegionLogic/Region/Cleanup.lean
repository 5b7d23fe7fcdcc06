import RegionLogic.Json.Fields
import RegionLogic.Region.Graph

/-!
# Cleanup

The graph is simplified in rounds. A round merges every region with a single entrance, no exits and no
transitions into the region in front of it. Where nothing merges, pairs of regions with unconditional
edges in both directions are joined; where nothing joins either, empty regions are taken out and the
edges through them led round. After each round dominated branches are dropped. The rounds end when
one changes nothing; each round that changes something takes a region out, so there are no more
rounds than regions.

## Main definitions

* `CleanupOptions`, `CleanupReport`: what is to be done, and what has been done
* `Building.mergeIntoParent?`, `Building.absorbNeighbour?`, `Building.removeEmpty?`: the three ways in
  which a region goes
* `Building.round`: one round
* `Building.simplify`: the rounds
* `Building.clean`: all of it
-/

namespace RegionLogic

/-- What a cleanup is to do. -/
structure CleanupOptions where
  /-- Compare region requirements in the test of dominance. -/
  compareRegions : Bool := false
  /-- Join regions with unconditional edges in both directions. -/
  mergeCycles : Bool := false
  /-- Take out regions in which nothing is placed. -/
  removeEmpty : Bool := false
  deriving DecidableEq, Inhabited

/-- The options that the settings give. -/
def CleanupOptions.ofSettings (settings : Json) : Except Fault CleanupOptions := do
  let v ← settings.fieldOr "cleanup" (.obj [])
  let flag (k : String) : Except Fault Bool := return (← v.fieldOr k (.bool false)).isTruthy
  return {
    compareRegions := ← flag "compare_region_requirements"
    mergeCycles := ← flag "merge_logicless_cycles"
    removeEmpty := ← flag "remove_empty_regions" }

/-- What a cleanup has done. -/
structure CleanupReport where
  /-- The number of rounds that changed something. -/
  rounds : Nat := 0
  /-- The regions merged into the one in front of them. -/
  merged : List Name := []
  /-- The regions joined to a neighbour. -/
  absorbed : List Name := []
  /-- The empty regions taken out. -/
  removed : List Name := []
  /-- The number of dominated branches dropped. -/
  branches : Nat := 0
  deriving DecidableEq, Inhabited

/-- The wording of a report. -/
def CleanupReport.text (r : CleanupReport) : String :=
  s!"{r.rounds} rounds, {r.merged.length} merged, {r.absorbed.length} absorbed, " ++
    s!"{r.removed.length} removed, {r.branches} redundant branches dropped"

/-- The regions that stay in any case: the start region, the regions to keep, and those that some
branch requires. -/
def RegionGraph.protectedRegions (g : RegionGraph) (keep : NameSet) : NameSet :=
  insert startRegion <|
    (g.logicLists.flatten.foldl (fun names b => names ∪ b.regions) keep)

/-! ## Dominated and empty branches -/

/-- What a sweep through the lists of alternatives has done so far. -/
structure Sweep where
  /-- The dropped branches, each with the one that dominates it. -/
  dropped : List (Branch × Branch) := []
  /-- The fault that has ended the sweep. -/
  fault : Option Fault := none

/-- Drops the dominated branches of a list; once a fault has occurred the lists stay as they are. -/
def sweepList (classify : Classifier) (compareRegions : Bool) (branches : List Branch) :
    StateM Sweep (List Branch) := do
  let s ← get
  if s.fault.isSome then return branches
  let e := removeRedundant classify compareRegions branches
  set { s with dropped := s.dropped ++ e.dropped, fault := e.fault }
  return e.kept

/-- The alternatives without empty branches, unless all are empty: then one of them stays. -/
def stripEmpty (branches : List Branch) : List Branch :=
  let left := branches.filter (!·.isEmpty)
  if left.isEmpty then branches.take 1 else left

namespace Building

/-- Drops the dominated branches of all lists, and returns their number. -/
def sweep (classify : Classifier) (options : CleanupOptions) : Building Nat := do
  let swept := ((← graph).traverseLogic (sweepList classify options.compareRegions)).run {}
  modify fun s =>
    { s with graph := swept.1, events := s.events ++ droppedEvents swept.2.dropped }
  match swept.2.fault with
  | some fault => throw fault
  | none => return swept.2.dropped.length

/-- Strips all lists of empty branches. -/
def strip : Building Unit :=
  change fun g => (g.traverseLogic (m := Id) fun branches => pure (stripEmpty branches)).run

/-! ## The ways in which a region goes -/

/-- Moves a location into the region `parent`, behind the logic of the edge that led to it. -/
def adoptLocation (parent : Name) (entrance : List Branch) (name : Name) : Building Unit := do
  change (·.adjustRegion parent (·.addLocation name))
  if Entries.has (← graph).locations name then
    change fun g =>
      { g with locations :=
        Entries.adjust g.locations name fun l =>
          { l with logic := distribute entrance l.logic } }
  else throw (.missingKey name)

/-- Merges a region that has no exits, no transitions and a single entrance into the region that it is
entered from. Returns the region that has gone. -/
def mergeIntoParent? (kept : NameSet) (name : Name) : Building (Option Name) := do
  if name ∈ kept then return none
  let child ← region name
  if !child.exits.isEmpty || !child.transitions.isEmpty then return none
  match (← graph).parentsOf name with
  | [parentName] =>
    let parent ← region parentName
    let entrance := (parent.exitTo? name).elim [] (·.logic)
    removeRegion name
    child.locations.forM (adoptLocation parentName entrance)
    log .debug s!"Merged {name} into {parentName}"
    return some name
  | _ => return none

/-- Joins the region `child` to the region `parent`: its locations, transitions and edges become those
of `parent`. -/
def absorb (parent child : Name) : Building Unit := do
  let c ← region child
  change (·.adjustRegion parent fun r =>
    c.transitions.foldl (·.addTransition ·) (c.locations.foldl (·.addLocation ·) r))
  c.exits.forM fun e =>
    if e.target = parent then pure ()
    else
      change (·.addEdge parent e.logic (if e.target = child then parent else e.target))
  (← graph).parentsOf child |>.forM fun other =>
    if other = parent ∨ other = child then pure () else redirect child parent other
  removeRegion child
  log .debug s!"Absorbed {child} into {parent}"

/-- Joins to a region the first neighbour that unconditional edges connect with it in both
directions. `exits` holds the exits that are left to be looked at. -/
def absorbFirst? (kept : NameSet) (name : Name) : List Exit → Building (Option Name)
  | [] => return none
  | e :: exits => do
    if e.target = name ∨ e.target ∈ kept ∨ ¬e.logic.all (·.isEmpty) then
      absorbFirst? kept name exits
    else
      match (← region e.target).exitTo? name with
      | none => absorbFirst? kept name exits
      | some back =>
        if back.logic.all (·.isEmpty) then
          absorb name e.target
          return some e.target
        else absorbFirst? kept name exits

/-- Joins a neighbour to a region if unconditional edges connect them in both directions. Returns the
region that has gone. -/
def absorbNeighbour? (kept : NameSet) (name : Name) : Building (Option Name) := do
  absorbFirst? kept name (← region name).exits

/-- The branches of an edge that replaces a way through an empty region. Going round to where one
started only helps if it improves the state. -/
def detour (classify : Classifier) (parent : Name) (entrance : List Branch) (e : Exit) :
    Except Fault (Option (List Branch)) := do
  let branches := distribute entrance e.logic
  if parent = e.target then
    let useful ← branches.filterM fun b => do
      if b.modifiers.isEmpty then return false
      return (← classify.many b.modifiers) ≠ .detrimental
    return if useful.isEmpty then none else some useful
  else return some branches

/-- Leads an entrance of an empty region round it, to each of its exits. -/
def leadRound (classify : Classifier) (exits : List Exit) (parent : Name)
    (entrance : List Branch) : Building Unit :=
  exits.forM fun e => do
    match ← (detour classify parent entrance e : Except Fault _) with
    | some branches => change (·.addEdge parent branches e.target)
    | none => pure ()

/-- Takes out a region in which nothing is placed, and leads its entrances round it. A region that
leads to itself is assumed to change the state and stays. Returns the region that has gone. -/
def removeEmpty? (classify : Classifier) (kept : NameSet) (name : Name) :
    Building (Option Name) := do
  let r ← region name
  let parents := (← graph).parentsOf name
  if !r.isEmpty || parents.isEmpty || name ∈ kept || name ∈ parents then return none
  if r.exits.isEmpty then
    removeRegion name
    log .debug s!"Removed dead-end region {name}"
    return some name
  let entrances ← parents.mapM fun p => do
    return (p, ((← region p).exitTo? name).elim [] (·.logic))
  removeRegion name
  entrances.forM fun (parent, entrance) => leadRound classify r.exits parent entrance
  log .debug s!"Removed empty region {name} by rerouting {entrances.length} entrances"
  return some name

/-! ## Rounds -/

/-- Tries something on every region that is still there, and returns the regions that have gone. -/
def forEachRegion (attempt : Name → Building (Option Name)) : Building (List Name) := do
  (← graph).names.filterMapM fun name => do
    if ((← graph).region? name).isSome then attempt name else return none

/-- What one round has taken out: merged, joined and empty regions. -/
structure RoundResult where
  merged : List Name
  absorbed : List Name
  removed : List Name

/-- Whether a round has taken nothing out. -/
def RoundResult.isIdle (r : RoundResult) : Bool :=
  r.merged.isEmpty && r.absorbed.isEmpty && r.removed.isEmpty

/-- One round. The later ways are tried only if the earlier ones take nothing out. -/
def round (classify : Classifier) (kept : NameSet) (options : CleanupOptions) :
    Building RoundResult := do
  let merged ← forEachRegion (mergeIntoParent? kept)
  let absorbed ←
    if merged.isEmpty && options.mergeCycles then forEachRegion (absorbNeighbour? kept)
    else pure []
  let removed ←
    if merged.isEmpty && absorbed.isEmpty && options.removeEmpty then
      forEachRegion (removeEmpty? classify kept)
    else pure []
  return { merged, absorbed, removed }

/-- Rounds until one takes nothing out, at most `limit` of them. -/
def rounds (classify : Classifier) (kept : NameSet) (options : CleanupOptions) :
    Nat → CleanupReport → Building CleanupReport
  | 0, report => return report
  | limit + 1, report => do
    let r ← round classify kept options
    if r.isIdle then return report
    let number := report.rounds + 1
    log .debug <|
      s!"Cleanup round {number}: merged {Name.displayList r.merged}, " ++
        s!"absorbed {Name.displayList r.absorbed}, removed {Name.displayList r.removed}"
    let dropped ← sweep classify options
    rounds classify kept options limit
      { rounds := number
        merged := report.merged ++ r.merged
        absorbed := report.absorbed ++ r.absorbed
        removed := report.removed ++ r.removed
        branches := report.branches + dropped }

/-- Drops dominated branches, and takes regions out round by round until nothing more can go. The
regions to keep stay. -/
def simplify (classify : Classifier) (keep : NameSet) (options : CleanupOptions) :
    Building CleanupReport := do
  let kept := (← graph).protectedRegions keep
  let dropped ← sweep classify options
  let limit := (← graph).regions.length
  rounds classify kept options limit { branches := dropped }

/-- Simplifies the graph, and strips what is left of empty branches. -/
def clean (classify : Classifier) (keep : NameSet) (options : CleanupOptions) :
    Building CleanupReport := do
  let report ← simplify classify keep options
  strip
  return report

end Building

end RegionLogic
