import RegionLogic.Json.Basic
import RegionLogic.Text.Block

/-!
# Writing JSON

A text is written in ASCII: a character outside it becomes one or two escapes of UTF-16 units. The
indented form puts one item on a line, two spaces deeper than its container; an empty container
stays on one line.

## Main definitions

* `Json.textLiteral`: a text as a JSON string
* `Json.indented`: the indented form of a value
* `Json.compact`: a value on one line
-/

namespace RegionLogic.Json

/-- The escape of a UTF-16 unit. -/
def unitEscape (n : Nat) : List Char := '\\' :: 'u' :: Text.hexDigits 4 n

/-- A character inside a JSON string. -/
def literalChar (c : Char) : List Char :=
  if c = '"' then ['\\', '"']
  else if c = '\\' then ['\\', '\\']
  else if c = '\n' then ['\\', 'n']
  else if c = '\r' then ['\\', 'r']
  else if c = '\t' then ['\\', 't']
  else if c = '\x08' then ['\\', 'b']
  else if c = '\x0c' then ['\\', 'f']
  else if 0x20 ≤ c.toNat ∧ c.toNat < 0x7f then [c]
  else if c.toNat < 0x10000 then unitEscape c.toNat
  else
    unitEscape (0xd800 + (c.toNat - 0x10000) / 0x400) ++
      unitEscape (0xdc00 + (c.toNat - 0x10000) % 0x400)

/-- The characters of a text as a JSON string. -/
def literalChars (cs : List Char) : List Char := '"' :: cs.flatMap literalChar ++ ['"']

/-- A text as a JSON string. -/
def textLiteral (s : String) : String := .ofList (literalChars s.toList)

/-- A number; the special numbers have names of their own. -/
def floatLiteral : Binary64 → String
  | .nan => "NaN"
  | .infinity negative => if negative then "-Infinity" else "Infinity"
  | x => x.numeral

mutual

/-- The indented form of a value that stands `depth` containers deep. -/
def indentedAt (depth : Nat) : Json → String
  | null => "null"
  | bool b => if b then "true" else "false"
  | int n => toString n
  | float x => floatLiteral x
  | str s => textLiteral s
  | arr items => Text.block 2 depth "[" "]" (indentedItems (depth + 1) items)
  | obj fields => Text.block 2 depth "\x7b" "\x7d" (indentedFields (depth + 1) fields)

/-- The indented forms of the items of a list. -/
def indentedItems (depth : Nat) : List Json → List String
  | [] => []
  | v :: vs => indentedAt depth v :: indentedItems depth vs

/-- The indented forms of the fields of a table. -/
def indentedFields (depth : Nat) : List (String × Json) → List String
  | [] => []
  | (k, v) :: fs => (textLiteral k ++ ": " ++ indentedAt depth v) :: indentedFields depth fs

end

/-- The indented form of a value. -/
def indented (v : Json) : String := indentedAt 0 v

mutual

/-- A value on one line. -/
def compact : Json → String
  | null => "null"
  | bool b => if b then "true" else "false"
  | int n => toString n
  | float x => floatLiteral x
  | str s => textLiteral s
  | arr items => "[" ++ ", ".intercalate (compactItems items) ++ "]"
  | obj fields => "\x7b" ++ ", ".intercalate (compactFields fields) ++ "\x7d"

/-- The items of a list, each on one line. -/
def compactItems : List Json → List String
  | [] => []
  | v :: vs => compact v :: compactItems vs

/-- The fields of a table, each on one line. -/
def compactFields : List (String × Json) → List String
  | [] => []
  | (k, v) :: fs => (textLiteral k ++ ": " ++ compact v) :: compactFields fs

end

end RegionLogic.Json
