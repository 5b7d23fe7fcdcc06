import RegionLogic.Region.Graph

/-!
# Direct edits

A region graph can be changed by hand: names are placed in a region or taken away, exits are dropped
and their logic is replaced. An edit changes what it names and nothing else, so it can leave a graph
whose placement or index is wrong.

## Main definitions

* `Building.placeName`, `Building.unplaceName`: edits of what is placed in a region
* `Building.dropExit`, `Building.setLogic`: edits of the exits of a region
-/

namespace RegionLogic

namespace Region

/-- The names of one kind that are placed in the region. -/
def placed (r : Region) : Placed → List Name
  | .locations => r.locations
  | .transitions => r.transitions

/-- The region in which the names of one kind are changed by `f`. -/
def adjustPlaced (r : Region) (f : List Name → List Name) : Placed → Region
  | .locations => { r with locations := f r.locations }
  | .transitions => { r with transitions := f r.transitions }

/-- The region in which every exit to `target` has the given alternatives. -/
def setLogic (r : Region) (target : Name) (logic : List Branch) : Region :=
  { r with exits := r.exits.map fun e => if e.target = target then { e with logic } else e }

@[simp] theorem placed_adjustPlaced (r : Region) (f : List Name → List Name) (kind : Placed) :
    (r.adjustPlaced f kind).placed kind = f (r.placed kind) := by
  cases kind <;> rfl

@[simp] theorem exits_adjustPlaced (r : Region) (f : List Name → List Name) (kind : Placed) :
    (r.adjustPlaced f kind).exits = r.exits := by
  cases kind <;> rfl

@[simp] theorem targets_setLogic (r : Region) (target : Name) (logic : List Branch) :
    (r.setLogic target logic).targets = r.targets := by
  simp only [targets, setLogic, List.map_map]
  refine List.map_congr_left fun e _ => ?_
  simp only [Function.comp]
  split <;> rfl

end Region

namespace Building

/-- Places a name in a region, behind those that are there, whether or not it is there already. -/
def placeName (kind : Placed) (name regionName : Name) : Building Unit := do
  let _ ← region regionName
  change (·.adjustRegion regionName (·.adjustPlaced (· ++ [name]) kind))

/-- Takes the first occurrence of a name out of a region. -/
def unplaceName (kind : Placed) (name regionName : Name) : Building Unit := do
  let r ← region regionName
  if name ∉ r.placed kind then throw .notListed
  change (·.adjustRegion regionName (·.adjustPlaced (·.erase name) kind))

/-- Drops an exit, and leaves the index of entrances as it is. -/
def dropExit (target regionName : Name) : Building Unit := do
  let _ ← region regionName
  change (·.adjustRegion regionName (·.removeExits target))

/-- Replaces the alternatives of an exit. -/
def setLogic (target : Name) (logic : List Branch) (regionName : Name) : Building Unit := do
  let r ← region regionName
  if (r.exitTo? target).isNone then throw .noExit
  change (·.adjustRegion regionName (·.setLogic target logic))

end Building

end RegionLogic
