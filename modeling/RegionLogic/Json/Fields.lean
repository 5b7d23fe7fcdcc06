import RegionLogic.Listing
import RegionLogic.Text.Integer

/-!
# Reading values out of JSON

World files and settings are read leniently: where a list is wanted, the characters of a text and the
names of a table serve as its items; a missing field has a default; any value counts as yes or no.
A value of the wrong kind is a fault.

## Main definitions

* `Json.items`: the items of a value
* `Json.fieldOr`, `Json.requiredField`: the field of a table, with a default or required
* `Json.name`, `Json.nameList`, `Json.nameSet`: names, lists and sets of names
* `Json.integer`: the integer that a value denotes
-/

namespace RegionLogic.Json

/-- The items of a list, the characters of a text, the names of a table. -/
def items : Json → Except Fault (List Json)
  | arr vs => .ok vs
  | str s => .ok (s.toList.map fun c => str (.ofList [c]))
  | obj fields => .ok (fields.map fun f => str f.1)
  | v => .error (.shape (.notIterable v.shape))

/-- The value of a field of a table, or a default if there is none. -/
def fieldOr (v : Json) (k : String) (default : Json) : Except Fault Json :=
  match v with
  | obj fields => .ok ((Entries.find? fields k).getD default)
  | v => .error (.noOperation v.shape "get")

/-- The value of a field that has to be there. -/
def requiredField (v : Json) (k : String) : Except Fault Json :=
  match v with
  | obj fields =>
    match Entries.find? fields k with
    | some w => .ok w
    | none => .error (.missingKey k)
  | v => .error (.shape (.notSubscriptable v.shape))

/-- The name that a value is. Lists and tables cannot be members of sets and name nothing. -/
def name (v : Json) : Except Fault Name :=
  match Name.ofJson? v with
  | some a => .ok a
  | none => .error (.shape (.unhashable v.shape))

/-- The items of a value as names. -/
def nameList (v : Json) : Except Fault (List Name) := do
  (← v.items).mapM name

/-- The set of the items of a value. -/
def nameSet (v : Json) : Except Fault NameSet := do
  return .ofValues (← v.nameList)

/-- A text. -/
def text (v : Json) : Except Fault String :=
  match v with
  | str s => .ok s
  | v => .error (.shape (.notText v.shape))

/-- The integer that a value denotes: texts are read, floats are cut off, and truth counts as one. -/
def integer : Json → Except Fault Int
  | int n => .ok n
  | bool b => .ok (if b then 1 else 0)
  | float x =>
    match x with
    | .nan => .error .nanToInteger
    | .infinity _ => .error .infinityToInteger
    | x => .ok (x.truncate?.getD 0)
  | str s =>
    match Text.readInteger s with
    | .ok n => .ok n
    | .error .malformed => .error (.notInteger (Text.quoted s))
    | .error (.tooLong digits) => .error (.excess (.digits digits))
  | v => .error (.shape (.notNumber v.shape))

end RegionLogic.Json
