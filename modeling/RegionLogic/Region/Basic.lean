import RegionLogic.Names
import RegionLogic.Requirement.Branch

/-!
# Regions

The nodes of the region graph and what is placed in them.

## Main definitions

* `Exit`: the way to another region, with its alternatives
* `Region`: a traversable area with its locations, transitions and exits
* `Site`: a location or a transition, with the logic that applies in its region
-/

namespace RegionLogic

/-- The way to another region; each branch is one way to take it. -/
structure Exit where
  /-- The name of the region that it leads to. -/
  target : Name
  logic : List Branch
  deriving DecidableEq, Inhabited

/-- The exit as a JSON value. -/
def Exit.toJson (e : Exit) : Except Fault Json := do
  return .obj [("Target", e.target.toJson), ("Logic", ← Branch.listJson e.logic)]

/-- A traversable area. -/
structure Region where
  name : Name
  /-- The names of the locations placed in it, in the order of their arrival. -/
  locations : List Name := []
  /-- The names of the transitions placed in it, in the order of their arrival. -/
  transitions : List Name := []
  /-- The exits, in the order of their arrival. -/
  exits : List Exit := []
  deriving DecidableEq, Inhabited

namespace Region

/-- The exit to a region. -/
def exitTo? (r : Region) (target : Name) : Option Exit := r.exits.find? (·.target = target)

/-- The region with a location placed in it. -/
def addLocation (r : Region) (name : Name) : Region :=
  { r with locations := addOnce r.locations name }

/-- The region with a transition placed in it. -/
def addTransition (r : Region) (name : Name) : Region :=
  { r with transitions := addOnce r.transitions name }

/-- The exits with further branches to `target`: on the exit that is there, or on a new last one. -/
def extendExits (target : Name) (branches : List Branch) : List Exit → List Exit
  | [] => [⟨target, branches⟩]
  | e :: es =>
    if e.target = target then ⟨e.target, e.logic ++ branches⟩ :: es
    else e :: extendExits target branches es

/-- The region with further branches to `target`. -/
def addBranches (r : Region) (target : Name) (branches : List Branch) : Region :=
  { r with exits := extendExits target branches r.exits }

/-- The region without exits to `target`. -/
def removeExits (r : Region) (target : Name) : Region :=
  { r with exits := r.exits.filter (·.target != target) }

/-- Whether neither a location nor a transition is placed in the region. -/
def isEmpty (r : Region) : Bool := r.locations.isEmpty && r.transitions.isEmpty

/-- The region as a JSON value. -/
def toJson (r : Region) : Except Fault Json := do
  return .obj [("Name", r.name.toJson), ("Locations", Branch.namesJson r.locations),
    ("Transitions", Branch.namesJson r.transitions), ("Exits", .arr (← r.exits.mapM (·.toJson)))]

/-! ## The targets of exits -/

/-- The regions that the exits lead to, in order. -/
def targets (r : Region) : List Name := r.exits.map (·.target)

theorem map_target_extendExits (target : Name) (branches : List Branch) (es : List Exit) :
    (extendExits target branches es).map (·.target) = addOnce (es.map (·.target)) target := by
  induction es with
  | nil => simp [extendExits, addOnce]
  | cons e es ih =>
    by_cases h : e.target = target
    · simp [extendExits, addOnce, h]
    · simp only [extendExits, h, if_false, List.map_cons, ih]
      by_cases ht : target ∈ es.map (·.target) <;> simp [addOnce, ht, Ne.symm h]

@[simp] theorem targets_addBranches (r : Region) (target : Name) (branches : List Branch) :
    (r.addBranches target branches).targets = addOnce r.targets target :=
  map_target_extendExits ..

@[simp] theorem targets_removeExits (r : Region) (target : Name) :
    (r.removeExits target).targets = r.targets.filter (· != target) := by
  simp only [targets, removeExits, List.filter_map]
  rfl

end Region

/-- A location or a transition. Its logic applies once its region is reached. -/
structure Site where
  name : Name
  logic : List Branch
  /-- Whether it is a location that is an event of the game. -/
  isEvent : Bool := false
  deriving DecidableEq, Inhabited

/-- A location as a JSON value. -/
def Site.locationJson (s : Site) : Except Fault Json := do
  return .obj [("Name", s.name.toJson), ("Logic", ← Branch.listJson s.logic),
    ("IsEvent", .bool s.isEvent)]

/-- A transition as a JSON value. -/
def Site.transitionJson (s : Site) : Except Fault Json := do
  return .obj [("Name", s.name.toJson), ("Logic", ← Branch.listJson s.logic)]

end RegionLogic
