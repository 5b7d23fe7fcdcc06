import RegionLogic.LogicObject
import RegionLogic.Region.Graph

/-!
# Ingestion

A logic object gets a region of its own name. Each of its clauses becomes a branch on the edge from
the provider's region to that region. A location is placed in the region with the empty branch as its
logic; a clause of a transition that draws state from the transition itself is logic of the transition
and no edge.

## Main definitions

* `Clause.branch`: the branch of a clause
* `ingest`: adds a logic object to the graph
* `relabelAsStart`: makes a region the start region
-/

namespace RegionLogic

/-- The branch of a clause: the requirements of its conditions, and its modifiers. -/
def Clause.branch (c : Clause) : Except Fault Branch := do
  let p ← c.partition
  return { items := p.items, locations := p.locations, regions := p.regions,
           modifiers := c.modifiers }

namespace RegionGraph

/-- The graph with an object's region and the object placed in it. -/
def place (g : RegionGraph) (o : LogicObject) : RegionGraph :=
  let g := g.ensureRegion o.name
  match o.handling with
  | .region => g
  | .location =>
    let g := g.adjustRegion o.name (·.addLocation o.name)
    { g with locations := Entries.set g.locations o.name ⟨o.name, [Branch.empty], o.isEvent⟩ }
  | .transition =>
    let g := g.adjustRegion o.name (·.addTransition o.name)
    if Entries.has g.transitions o.name then g
    else { g with transitions := Entries.set g.transitions o.name ⟨o.name, [], false⟩ }

/-- The graph with a further branch of the logic of a transition. -/
def addTransitionLogic (g : RegionGraph) (name : Name) (b : Branch) : RegionGraph :=
  { g with transitions :=
    Entries.adjust g.transitions name fun t => { t with logic := t.logic ++ [b] } }

end RegionGraph

namespace Building

/-- Adds the branch of a clause of an object. -/
def ingestClause (o : LogicObject) (c : Clause) : Building Unit := do
  let parent ← (c.parentRegion : Except Fault _)
  let b ← (c.branch : Except Fault _)
  if o.handling = .transition ∧ parent = o.name then change (·.addTransitionLogic o.name b)
  else change (·.addEdge parent [b] o.name)

/-- Adds a logic object and its clauses to the graph. -/
def ingest (o : LogicObject) : Building Unit := do
  change (·.place o)
  o.logic.forM (ingestClause o)

/-- Leads every edge into a region to the start region, and takes the region out. The region has to
be empty and without exits. -/
def relabelAsStart (name : Name) : Building Unit := do
  if name = startRegion then throw (.relabel .alreadyStart)
  match (← graph).region? name with
  | none => throw (.relabel (.unknownRegion name))
  | some r =>
    if !r.exits.isEmpty || !r.isEmpty then throw (.relabel (.ownsChildren name))
    (← graph).parentsOf name |>.forM (redirect name startRegion)
    removeRegion name
    log .info s!"Relabelled start region {name} as {startRegion}"

end Building

end RegionLogic
