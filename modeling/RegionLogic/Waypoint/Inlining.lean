import RegionLogic.LogicObject
import RegionLogic.Pattern.Reader
import RegionLogic.Waypoint.Order

/-!
# Inlining waypoints

A waypoint that only provides state adds a region to the graph in which nothing is placed. Inlining
substitutes its clauses into every clause that draws state from it, so that the waypoint can be
dropped. Waypoints that are required as conditions, draw state from themselves or depend on each other
in circles are reported and stay.

## Main definitions

* `WaypointSelection`: the patterns of the names of waypoints to be inlined
* `referenceGraph`: which objects refer to which others
* `WaypointSelection.inline`: the objects with the waypoints inlined
-/

namespace RegionLogic

/-- The patterns of the names of waypoints to be inlined. -/
structure WaypointSelection where
  patterns : List Pattern
  deriving DecidableEq

/-- The selection by written patterns, each read between the start and the end of the name. -/
def WaypointSelection.read (sources : List String) : Except Fault WaypointSelection := do
  return ⟨← sources.mapM fun s => (Pattern.anchored s).mapError .pattern⟩

/-- Whether a pattern matches a name. The name has to be a text if there is any pattern. -/
def WaypointSelection.accepts (w : WaypointSelection) : Name → Except Fault Bool
  | .text s => .ok (w.patterns.any (·.matchesStart s))
  | .odd v => if w.patterns.isEmpty then .ok false else .error (.shape (.notText v.toJson.shape))

/-- Whether an object may be inlined: it is neither location nor transition, and a pattern matches its
name. -/
def WaypointSelection.isCandidate (w : WaypointSelection) (o : LogicObject) : Except Fault Bool :=
  if o.handling = .region then w.accepts o.name else .ok false

/-- The alternatives of the last object with the given name. -/
def logicOf (objects : List LogicObject) (name : Name) : List Clause :=
  (objects.reverse.find? (·.name = name)).elim [] (·.logic)

/-- Which objects refer to which others, as providers or in conditions. -/
def referenceGraph (objects : List LogicObject) : Except Fault WaypointGraph := do
  let known := NameSet.ofList (objects.map (·.name))
  objects.foldlM (fun graph o => do
    let names ← o.logic.foldlM (fun names c => return names ∪ (← c.referencedNames)) (∅ : NameSet)
    return graph.update o.name (names.erase o.name ∩ known).toList) WaypointGraph.empty

/-! ## Which waypoints stay -/

/-- The candidates without those that draw state from themselves. -/
def dropSelfReferential (objects : List LogicObject) (candidates : NameSet) : Logged NameSet :=
  candidates.toList.foldlM (fun left name => do
    if ← (logicOf objects name).anyM fun c => (c.isSelfReferential name : Except Fault Bool) then
      record .warning .solver s!"Waypoint {name} refers to its own state; not inlining"
      return left.erase name
    else return left) candidates

/-- The candidates without those that a clause of the object `owner` mentions as a condition. -/
def dropMentioned (owner : Name) (candidates : NameSet) (c : Clause) : Logged NameSet :=
  candidates.toList.foldlM (fun left name => do
    if ← (c.mentions name : Except Fault Bool) then
      record .warning .solver
        s!"Waypoint {name} is required as a condition by {owner}; not inlining"
      return left.erase name
    else return left) candidates

/-- The candidates without those that any clause mentions as a condition. -/
def dropRequired (objects : List LogicObject) (candidates : NameSet) : Logged NameSet :=
  objects.foldlM (fun left o => o.logic.foldlM (dropMentioned o.name) left) candidates

/-- The candidates other than `name` that provide state to its clauses. -/
def providersOf (objects : List LogicObject) (candidates : NameSet) (name : Name) :
    Except Fault NameSet := do
  let providers ← ((logicOf objects name).filterMap (·.provider)).mapM Clause.providerRegion
  return (NameSet.ofList providers).erase name ∩ candidates

/-- The graph of the candidates and the candidates that provide state to them. -/
def providerGraph (providers : List (Name × NameSet)) : WaypointGraph :=
  providers.foldl (fun graph p => graph.update p.1 p.2.toList) .empty

/-- Records the groups of candidates that depend on each other. Where no root leads to a circle, the
names on circles are recorded as one group. -/
def recordCircles (graph : WaypointGraph) (cyclic : NameSet) : Logged Unit := do
  let groups ← (graph.cycleGroups.mapM (·.text) : Except Fault (List String))
  let shown ←
    if groups.isEmpty then pure [Name.text (← (joinNames ", " cyclic.toList : Except Fault String))]
    else pure (NameSet.ofList (groups.map .text)).toList
  shown.forM fun group =>
    record .error .solver
      s!"Waypoints {group} are mutually recursive and need joint resolution; not inlining"

/-! ## Substitution -/

/-- The clauses that a clause stands for once the waypoints in `solved` are inlined. -/
def inlineClause (solved : List (Name × List Clause)) (c : Clause) :
    Except Fault (List Clause) := do
  match c.provider with
  | none => return [c]
  | some provider =>
    match Entries.find? solved (← Clause.providerRegion provider) with
    | some inlined => return inlined.map c.substitute
    | none => return [c]

/-- The clauses with the waypoints in `solved` inlined, less those for which another is the same or
better. -/
def inlineClauses (classify : Classifier) (solved : List (Name × List Clause))
    (clauses : List Clause) : Except Fault (List Clause) := do
  Clause.reduceAll classify (← clauses.mapM (inlineClause solved)).flatten

/-- The clauses of the waypoints in `order`, each with those before it inlined. -/
def solveInOrder (classify : Classifier) (objects : List LogicObject) (order : List Name) :
    Logged (List (Name × List Clause)) :=
  order.foldlM (fun solved name => do
    let clauses ← (inlineClauses classify solved (logicOf objects name) : Except Fault _)
    record .info .solver s!"Inlined waypoint {name} as {clauses.length} clauses"
    return Entries.set solved name clauses) []

/-- The objects with the selected waypoints inlined and dropped. Without any candidate the objects
are left as they are. -/
def WaypointSelection.inline (w : WaypointSelection) (classify : Classifier)
    (objects : List LogicObject) : Logged (List LogicObject) := do
  let chosen ← (objects.filterM w.isCandidate : Except Fault (List LogicObject))
  let candidates := NameSet.ofList (chosen.map (·.name))
  if candidates.isEmpty then return objects
  let candidates ← dropSelfReferential objects candidates
  let candidates ← dropRequired objects candidates
  let providers ← candidates.toList.mapM fun name => do
    return (name, ← (providersOf objects candidates name : Except Fault _))
  let graph := providerGraph providers
  let cyclic := graph.cyclicNames
  if !cyclic.isEmpty then recordCircles graph cyclic
  let candidates := candidates \ cyclic
  let acyclic := providerGraph <|
    (providers.filter (·.1 ∈ candidates)).map fun p => (p.1, p.2 ∩ candidates)
  let order ← (acyclic.substitutionOrder : Except Fault _)
  let solved ← solveInOrder classify objects order
  (objects.filter fun o => !Entries.has solved o.name).mapM fun o => do
    return { o with logic := ← (inlineClauses classify solved o.logic : Except Fault _) }

end RegionLogic
