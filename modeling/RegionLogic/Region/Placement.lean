import RegionLogic.Region.Graph

/-!
# Placement

Every declared location and transition has to be placed exactly once, and nothing else may be placed.
All problems are reported together.

## Main definitions

* `placementFaults`: the problems of one kind of things
* `RegionGraph.faults`: all problems
* `Building.validate`: fails if there are any
-/

namespace RegionLogic

/-- The regions whose lists hold a name, in order. -/
def owners (placed : List (Name × List Name)) (name : Name) : List Name :=
  (placed.filter (name ∈ ·.2)).map (·.1)

/-- What is wrong with the placement of one kind of things, given the regions with the names placed in
them, and the declared names. -/
def placementFaults (kind : Placed) (placed : List (Name × List Name))
    (declared : List Name) : List PlacementFault :=
  let all := placed.flatMap (·.2)
  let duplicated := all.eraseDups.filter (1 < all.count ·)
  let mismatched :=
    NameSet.ofList (all.filter (· ∉ declared) ++ declared.filter (· ∉ all))
  (if duplicated.isEmpty then []
    else [.duplicated kind (duplicated.map fun name => (name, owners placed name))]) ++
  (if mismatched.isEmpty then [] else [.mismatched kind mismatched.toList])

/-- What is wrong with the placement of transitions and locations. -/
def RegionGraph.faults (g : RegionGraph) : List PlacementFault :=
  placementFaults .transitions (g.regions.map fun r => (r.2.name, r.2.transitions))
      (Entries.keys g.transitions) ++
    placementFaults .locations (g.regions.map fun r => (r.2.name, r.2.locations))
      (Entries.keys g.locations)

/-- The names in a problem of placement have to be texts if they are to be listed: the regions that
hold a duplicated name, and the names that are not matched. -/
def PlacementFault.tellable : PlacementFault → Except Fault Unit
  | .duplicated _ names => names.forM fun n => do let _ ← joinNames ", " n.2
  | .mismatched _ names => do let _ ← joinNames ", " (← (NameSet.ofList names).inOrder)

/-- Fails with all problems of placement if there are any. -/
def Building.validate : Building Unit := do
  match (← graph).faults with
  | [] => return
  | causes =>
    causes.forM fun cause => (cause.tellable : Except Fault Unit)
    throw (.placement causes)

end RegionLogic
