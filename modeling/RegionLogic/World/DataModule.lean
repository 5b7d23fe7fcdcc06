import RegionLogic.Text.SnakeCase
import RegionLogic.World.Basic
import RegionLogic.Json.Printer

/-!
# The data module

A world is also written as a module of literal assignments, for programs that load it as code. Each
field of the world is one assignment. The names of record fields are written in snake case; the names
of regions, locations and transitions stay as they are.

## Main definitions

* `Json.literal`: a value as a literal
* `World.moduleText`: the module
-/

namespace RegionLogic

namespace Json

mutual

/-- A value as a literal that stands `depth` containers deep, four spaces for each. The names of its own fields are written
in snake case if `rename` says so, those of deeper tables always. -/
def literal (rename : Bool) (depth : Nat) : Json → String
  | null => "None"
  | bool b => if b then "True" else "False"
  | int n => toString n
  | float x => x.numeral
  | str s => textLiteral s
  | arr items => Text.block 4 depth "[" "]" (literalItems (depth + 1) items)
  | obj fields => Text.block 4 depth "\x7b" "\x7d" (literalFields rename (depth + 1) fields)

/-- The literals of the items of a list. -/
def literalItems (depth : Nat) : List Json → List String
  | [] => []
  | v :: vs => literal true depth v :: literalItems depth vs

/-- The literals of the fields of a table. -/
def literalFields (rename : Bool) (depth : Nat) : List (String × Json) → List String
  | [] => []
  | (k, v) :: fs =>
    (textLiteral (if rename then Text.snakeCase k else k) ++ ": " ++ literal true depth v) ::
      literalFields rename depth fs

end

end Json

/-- The field of a table that is keyed by names. -/
def nameField (entry : Name × Name) : String :=
  (match entry.1 with
    | .text s => Json.textLiteral s
    | .odd v => v.toJson.compact) ++ ": " ++ entry.2.toJson.literal true 1

namespace World

/-- The first line of a data module. -/
def moduleHeader : String := "# This file is programmatically generated, do not modify by hand"

/-- The assignment of a value to a field. -/
def assignment (field value : String) : String := Text.snakeCase field ++ " = " ++ value

/-- The data module of a world. Two empty lines follow the header, and one follows each
assignment. -/
def moduleText (w : World) : Except Fault String := do
  let lists := (← w.listFields).map fun field => assignment field.1 (field.2.literal true 0)
  let table := Text.block 4 0 "\x7b" "\x7d" ((← w.regionsByTransition).map nameField)
  let assignments := lists ++ [assignment transitionTable table]
  return "\n".intercalate
    ([moduleHeader, "", ""] ++ assignments.flatMap fun line => [line, ""]) ++ "\n"

end World

end RegionLogic
