import RegionLogic.Entries
import RegionLogic.Number.Shortest
import RegionLogic.Text.Quoted

/-!
# JSON values

World files, name lists and settings are trees of JSON values. The fields of an object keep the
order in which they were first entered, and integers are unbounded.

## Main definitions

* `Json`: the values
* `Json.field?`: the value of a field of an object
* `Json.isTruthy`: whether a value counts as yes where a yes or no is wanted
* `Json.display`, `Json.spelling`: the form of a value in messages
* `Shape`: the kinds of values, by the names that messages use
-/

namespace RegionLogic

/-- A JSON value. -/
inductive Json where
  | null
  | bool (b : Bool)
  | int (n : Int)
  | float (x : Binary64)
  | str (s : String)
  | arr (items : List Json)
  /-- A table of named values. -/
  | obj (fields : List (String × Json))
  deriving Inhabited

/-- The kinds of JSON values. -/
inductive Shape where
  | null
  | bool
  | int
  | float
  | str
  | arr
  | obj
  deriving DecidableEq

/-- The name of a kind in messages. -/
def Shape.name : Shape → String
  | null => "NoneType"
  | bool => "bool"
  | int => "int"
  | float => "float"
  | str => "str"
  | arr => "list"
  | obj => "dict"

namespace Json

/-- The kind of a value. -/
def shape : Json → Shape
  | null => .null
  | bool _ => .bool
  | int _ => .int
  | float _ => .float
  | str _ => .str
  | arr _ => .arr
  | obj _ => .obj

theorem exists_eq_obj {v : Json} (h : v.shape = .obj) : ∃ fields, v = .obj fields := by
  cases v <;> cases h
  exact ⟨_, rfl⟩

/-- A value counts as no if it is absent, false, zero or empty. -/
def isTruthy : Json → Bool
  | null => false
  | bool b => b
  | int n => n != 0
  | float x => !x.isZero
  | str s => !s.isEmpty
  | arr items => !items.isEmpty
  | obj fields => !fields.isEmpty

/-- The value of a field of an object; other values have no fields. -/
def field? : Json → String → Option Json
  | obj fields, k => Entries.find? fields k
  | _, _ => none

mutual

/-- The form of a value in messages. -/
def display : Json → String
  | null => "None"
  | bool b => if b then "True" else "False"
  | int n => toString n
  | float x => x.numeral
  | str s => Text.quoted s
  | arr items => "[" ++ ", ".intercalate (displayItems items) ++ "]"
  | obj fields => "\x7b" ++ ", ".intercalate (displayFields fields) ++ "\x7d"

/-- The forms of the items of a list. -/
def displayItems : List Json → List String
  | [] => []
  | v :: vs => display v :: displayItems vs

/-- The forms of the fields of a table. -/
def displayFields : List (String × Json) → List String
  | [] => []
  | (k, v) :: fs => (Text.quoted k ++ ": " ++ display v) :: displayFields fs

end

/-- A text as it is, and any other value in its form for messages. -/
def spelling : Json → String
  | str s => s
  | v => v.display

end Json

end RegionLogic
