import RegionLogic.Requirement.Clause

/-!
# Logic objects

A world is a list of named logic objects, each with its alternatives. An object may be placed in the
graph as a location or as a transition.

## Main definitions

* `Handling`: how an object is placed
* `LogicObject`: the objects
* `WorldEntry`: an object as a world file gives it
-/

namespace RegionLogic

/-- How a logic object is placed in the graph. -/
inductive Handling where
  /-- It is a region only. -/
  | region
  /-- It is a location in its region. -/
  | location
  /-- It is a transition in its region. -/
  | transition
  deriving DecidableEq, Inhabited

namespace Handling

/-- The name of a handling. -/
def name : Handling → String
  | region => "Default"
  | location => "Location"
  | transition => "Transition"

/-- The handlings in order. -/
def all : List Handling := [region, location, transition]

/-- The handling that a value names. -/
def read (v : Json) : Except Fault Handling :=
  match v with
  | .str s =>
    match all.find? (·.name = s) with
    | some h => .ok h
    | none => .error (.notInVocabulary .handling v.display)
  | v => .error (.notInVocabulary .handling v.display)

end Handling

/-- A named object and its alternatives. -/
structure LogicObject where
  /-- The name of the object and of its region. -/
  name : Name
  /-- The alternatives that give access to it. -/
  logic : List Clause := []
  /-- How it is placed. -/
  handling : Handling := .region
  /-- Whether it is a location that is an event of the game. -/
  isEvent : Bool := false
  deriving DecidableEq, Inhabited

/-- An object as a world file gives it. Its name may be any value; lists and tables name no region. -/
structure WorldEntry where
  name : Json
  logic : List Clause
  /-- How it is placed. -/
  handling : Handling
  /-- Whether it is a location that is an event of the game. -/
  isEvent : Bool

namespace WorldEntry

/-- The entry that a value gives; `readClause` reads its alternatives. The name is read first, then
the alternatives, then the handling. -/
def readWith (readClause : Json → Except Fault Clause) (v : Json) : Except Fault WorldEntry := do
  let name ← v.requiredField "Name"
  let logic ← (← (← v.fieldOr "Logic" (.arr [])).items).mapM readClause
  let handling ← Handling.read (← v.fieldOr "Handling" (.str "Default"))
  let isEvent := (← v.fieldOr "IsEventLocation" (.bool false)).isTruthy
  return { name, logic, handling, isEvent }

/-- The entry that a value gives, with all terms checked. -/
def read (v : Json) : Except Fault WorldEntry := readWith Clause.read v

/-- The object of an entry. -/
def toObject (e : WorldEntry) : Except Fault LogicObject := do
  return { name := ← e.name.name, logic := e.logic, handling := e.handling, isEvent := e.isEvent }

/-- The entry as a JSON value. -/
def toJson (e : WorldEntry) : Except Fault Json := do
  return .obj [("Name", e.name), ("Logic", .arr (← e.logic.mapM (·.toJson))),
    ("Handling", .str e.handling.name), ("IsEventLocation", .bool e.isEvent)]

end WorldEntry

/-- The entry of an object. -/
def LogicObject.toEntry (o : LogicObject) : WorldEntry :=
  { name := o.name.toJson, logic := o.logic, handling := o.handling, isEvent := o.isEvent }

/-- The object as a JSON value. -/
def LogicObject.toJson (o : LogicObject) : Except Fault Json := o.toEntry.toJson

end RegionLogic
