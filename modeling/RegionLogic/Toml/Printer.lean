import RegionLogic.Json.Printer
import RegionLogic.Toml.Reader

/-!
# Writing settings files

The fields of a table are written in their order, tables and lists of tables after everything else. A
table in a table gets a header with its whole path, and a list of tables gets a double header for each
of them. A header follows an empty line, unless it stands for the first field of its table; a table
that is the first field follows an empty line, too, where other fields come to stand before it. A
table that holds only tables gets no header of its own. Lists and tables inside lists are written on
one line.

## Main definitions

* `Toml.write`: the document with the given fields
-/

namespace RegionLogic.Toml

/-- A character inside double quotes. -/
def quotedChar (c : Char) : List Char :=
  if c = '"' then ['\\', '"']
  else if c = '\\' then ['\\', '\\']
  else if c = '\x08' then ['\\', 'b']
  else if c = '\t' then ['\\', 't']
  else if c = '\n' then ['\\', 'n']
  else if c = '\x0c' then ['\\', 'f']
  else if c = '\r' then ['\\', 'r']
  else if isControl c then '\\' :: 'u' :: Text.hexDigits 4 c.toNat
  else [c]

/-- A text between double quotes. -/
def quotedText (s : String) : String := .ofList ('"' :: s.toList.flatMap quotedChar ++ ['"'])

/-- A key: bare if it can be, otherwise quoted. -/
def keyText (k : String) : String :=
  if k.isEmpty || !k.toList.all isBare then quotedText k else k

/-- Whether a value is a table. -/
def isTable : Json → Bool
  | .obj _ => true
  | _ => false

/-- The fields of the tables of a list, if it is a list of tables that is not empty. -/
def tablesOf? : Json → Option (List (List (String × Json)))
  | .arr [] => none
  | .arr items => items.mapM fun
    | .obj fields => some fields
    | _ => none
  | _ => none

/-- Whether a value is written under headers. -/
def hasHeader (v : Json) : Bool := isTable v || (tablesOf? v).isSome

mutual

/-- A value on one line. The fields of a table are apart from each other by a comma, and by a space
too if the table stands in a list. -/
def inline (gap : String) : Json → Except String String
  | .null => .error "Unable to convert an object of <class 'NoneType'> to a TOML item"
  | .bool b => .ok (if b then "true" else "false")
  | .int n => .ok (toString n)
  | .float x => .ok x.numeral
  | .str s => .ok (quotedText s)
  | .arr items => return "[" ++ ", ".intercalate (← inlineItems items) ++ "]"
  | .obj fields =>
    return "\x7b" ++ ("," ++ gap).intercalate (← inlineFields fields) ++ "\x7d"

/-- The items of a list, each on one line. -/
def inlineItems : List Json → Except String (List String)
  | [] => .ok []
  | v :: vs => return (← inline " " v) :: (← inlineItems vs)

/-- The fields of a table on one line. -/
def inlineFields : List (String × Json) → Except String (List String)
  | [] => .ok []
  | (k, v) :: fs => return (keyText k ++ " = " ++ (← inline "" v)) :: (← inlineFields fs)

end

/-- The path of a table in the table at `path`. -/
def subpath (path k : String) : String := if path.isEmpty then keyText k else path ++ "." ++ keyText k

/-- What stands under a header. -/
structure Headed where
  /-- Whether it is a table and not a list of tables. -/
  isTable : Bool
  /-- Whether an empty line stands before it. -/
  apart : Bool
  /-- The header and what follows it. -/
  text : String

/-- The text of a headed part with the empty line before it. -/
def Headed.whole (h : Headed) : String := if h.apart then "\n" ++ h.text else h.text

/-- The parts of a table in the order in which they are written: lines before headers. -/
structure Parts where
  /-- The lines `key = value`. -/
  lines : List String
  /-- What stands under headers. -/
  headed : List Headed

namespace Parts

/-- The text of a table: its lines and what stands under headers. -/
def text (p : Parts) : String := "".intercalate p.lines ++ "".intercalate (p.headed.map (·.whole))

/-- The parts with a further line. It sets a table that is the first part apart. -/
def addLine (p : Parts) (line : String) : Parts where
  lines := p.lines ++ [line]
  headed :=
    match p.headed with
    | h :: hs => (if h.isTable then { h with apart := true } else h) :: hs
    | [] => []

/-- The parts with a further headed one. It stands apart unless it is the first part. -/
def addHeaded (p : Parts) (isTable : Bool) (text : String) : Parts :=
  { p with headed := p.headed ++ [⟨isTable, !(p.lines.isEmpty && p.headed.isEmpty), text⟩] }

end Parts

mutual

/-- A field of the table at `path`, whose earlier fields are `parts`. The fuel bounds the nesting. -/
def addField : Nat → String → Parts → String × Json → Except String Parts
  | 0, _, parts, _ => .ok parts
  | fuel + 1, path, parts, (k, v) => do
    match v, tablesOf? v with
    | .obj fields, _ =>
      let here := subpath path k
      let inner ← fieldsText fuel here fields
      let header := if !fields.isEmpty && fields.all (hasHeader ·.2) then "" else "[" ++ here ++ "]\n"
      return parts.addHeaded true (header ++ inner)
    | _, some (first :: rest) =>
      let here := subpath path k
      let firstText ← fieldsText fuel here first
      let restText ← listText fuel here (!first.isEmpty) rest
      return parts.addHeaded false ("[[" ++ here ++ "]]\n" ++ firstText ++ restText)
    | _, _ => return parts.addLine (keyText k ++ " = " ++ (← inline "" v) ++ "\n")

/-- The text of a table at `path`. -/
def fieldsText : Nat → String → List (String × Json) → Except String String
  | 0, _, _ => .ok ""
  | fuel + 1, path, fields => do
    return (← addFields fuel path ⟨[], []⟩ fields).text

/-- The parts of a table at `path` with further fields. -/
def addFields : Nat → String → Parts → List (String × Json) → Except String Parts
  | 0, _, parts, _ => .ok parts
  | _, _, parts, [] => .ok parts
  | fuel + 1, path, parts, f :: fs => do
    addFields fuel path (← addField fuel path parts f) fs

/-- The further tables of a list of tables at `path`; an empty line stands between a table with
fields and the next one. -/
def listText : Nat → String → Bool → List (List (String × Json)) → Except String String
  | 0, _, _, _ => .ok ""
  | _, _, _, [] => .ok ""
  | fuel + 1, path, apart, fields :: rest => do
    let header := (if apart then "\n[[" else "[[") ++ path ++ "]]\n"
    return header ++ (← fieldsText fuel path fields) ++
      (← listText fuel path (!fields.isEmpty) rest)

end

mutual

/-- The number of values in a value. -/
def weight : Json → Nat
  | .arr items => 1 + itemsWeight items
  | .obj fields => 1 + fieldsWeight fields
  | _ => 1

/-- The number of values in a list. -/
def itemsWeight : List Json → Nat
  | [] => 0
  | v :: vs => 1 + weight v + itemsWeight vs

/-- The number of values in a table. -/
def fieldsWeight : List (String × Json) → Nat
  | [] => 0
  | (_, v) :: fs => 1 + weight v + fieldsWeight fs

end

/-- The document with the given fields; an absent value cannot be written. -/
def write (fields : List (String × Json)) : Except String String :=
  fieldsText (4 * fieldsWeight fields + 4) "" fields

end RegionLogic.Toml
