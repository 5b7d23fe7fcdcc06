import RegionLogic.Json.Basic
import RegionLogic.Text.Integer

/-!
# Reading JSON

A reader of JSON texts that reports the first fault by its kind and its place: line and column,
which count from one, and the number of characters before it. Of fields with the same name the last
one counts. The names of the special numbers are accepted. Lists and tables may be nested only so
deep, and an integer may have only so many digits.

## Main definitions

* `Json.Problem`, `Json.Malformed`: what is wrong with a text, and where
* `Json.Excess`, `Json.Unreadable`: why a text has no value
* `Json.read`: the value of a text
-/

namespace RegionLogic.Json

/-- What can be wrong with a JSON text. -/
inductive Problem where
  /-- No value stands where one is needed. -/
  | expectingValue
  /-- No field name stands where one is needed. -/
  | expectingName
  /-- No colon follows a field name. -/
  | expectingColon
  /-- No comma or end follows an item. -/
  | expectingComma
  /-- A string does not end. -/
  | unterminatedString
  /-- A control character stands in a string. -/
  | controlCharacter
  /-- A backslash precedes a character that has no escape. -/
  | invalidEscape
  /-- A numeric escape lacks its four hexadecimal digits. -/
  | invalidUnitEscape
  /-- Something follows the value. -/
  | extraData
  /-- The text begins with a byte order mark. -/
  | byteOrderMark
  deriving DecidableEq

/-- The wording of a problem. -/
def Problem.text : Problem → String
  | expectingValue => "Expecting value"
  | expectingName => "Expecting property name enclosed in double quotes"
  | expectingColon => "Expecting ':' delimiter"
  | expectingComma => "Expecting ',' delimiter"
  | unterminatedString => "Unterminated string starting at"
  | controlCharacter => "Invalid control character at"
  | invalidEscape => "Invalid \\escape"
  | invalidUnitEscape => "Invalid \\uXXXX escape"
  | extraData => "Extra data"
  | byteOrderMark => "Unexpected UTF-8 BOM (decode using utf-8-sig)"

/-- A problem and its place in the text. -/
structure Malformed where
  problem : Problem
  /-- The line, counted from one. -/
  line : Nat
  /-- The column, counted from one. -/
  column : Nat
  /-- The number of characters before the place. -/
  offset : Nat
  deriving DecidableEq

/-- The message for a malformed text. -/
def Malformed.message (m : Malformed) : String :=
  m.problem.text ++ ": line " ++ toString m.line ++ " column " ++ toString m.column ++
    " (char " ++ toString m.offset ++ ")"

/-- A value that is too large to be read. -/
inductive Excess where
  /-- Lists and tables are nested too deep; the innermost one is a list or a table. -/
  | depth (isList : Bool)
  /-- An integer has too many digits. -/
  | digits (count : Nat)
  deriving DecidableEq

/-- The wording of an excess. -/
def Excess.message : Excess → String
  | depth isList =>
    "maximum recursion depth exceeded while decoding a JSON " ++
      (if isList then "array" else "object") ++ " from a unicode string"
  | digits count =>
    "Exceeds the limit (4300 digits) for integer string conversion: value has " ++ toString count ++
      " digits; use sys.set_int_max_str_digits() to increase the limit"

/-- Why a text has no value. -/
inductive Unreadable where
  | malformed (cause : Malformed)
  /-- It holds something too large. -/
  | excess (cause : Excess)
  deriving DecidableEq

/-- The greatest depth to which lists and tables are nested. -/
def maxDepth : Nat := 987

/-! ## Steps of the reader

A step takes the characters that are left and returns what it has read with the rest. A problem is
placed by the number of characters that are left there. -/

/-- Why the reader stops. -/
inductive Stop where
  /-- There is a problem where so many characters are left. -/
  | problem (p : Problem) (left : Nat)
  /-- Something is too large. -/
  | excess (e : Excess)

/-- A step of the reader. -/
abbrev Step (α : Type) := List Char → Except Stop (α × List Char)

/-- The characters after spaces, tabs and line ends. -/
def skipBlanks (cs : List Char) : List Char :=
  cs.dropWhile fun c => c = ' ' || c = '\t' || c = '\n' || c = '\r'

/-- The value of a hexadecimal digit. -/
def hexValue? (c : Char) : Option Nat :=
  if '0' ≤ c ∧ c ≤ '9' then some (c.toNat - '0'.toNat)
  else if 'a' ≤ c ∧ c ≤ 'f' then some (c.toNat - 'a'.toNat + 10)
  else if 'A' ≤ c ∧ c ≤ 'F' then some (c.toNat - 'A'.toNat + 10)
  else none

/-- The number denoted by hexadecimal digits. -/
def hexNumber? (cs : List Char) : Option Nat :=
  cs.foldlM (fun n c => (hexValue? c).map (16 * n + ·)) 0

/-- The UTF-16 unit at the head of `cs`, which stands after `\u`; the string has to go on. -/
def readUnit (cs : List Char) : Except Stop (Nat × List Char) :=
  if cs.length ≤ 4 then .error (.problem .invalidUnitEscape (cs.length + 1))
  else
    match hexNumber? (cs.take 4) with
    | some n => .ok (n, cs.drop 4)
    | none => .error (.problem .invalidUnitEscape (cs.length + 1))

/-- A code point, and the replacement character for half a surrogate pair. -/
def charOfUnit (n : Nat) : Char :=
  if 0xd800 ≤ n ∧ n ≤ 0xdfff then '\ufffd' else Char.ofNat n

/-- The character that a numeric escape denotes, where `cs` stands after `\u`. A high surrogate and
the escape of a low one after it are one character. -/
def readEscapedUnit (cs : List Char) : Except Stop (Char × List Char) := do
  let (n, rest) ← readUnit cs
  if 0xd800 ≤ n ∧ n ≤ 0xdbff then
    match rest with
    | '\\' :: 'u' :: more =>
      if more.length ≤ 4 then return (charOfUnit n, rest)
      let (k, last) ← readUnit more
      if 0xdc00 ≤ k ∧ k ≤ 0xdfff then
        return (Char.ofNat (0x10000 + (n - 0xd800) * 0x400 + (k - 0xdc00)), last)
      return (charOfUnit n, rest)
    | _ => return (charOfUnit n, rest)
  else
    return (charOfUnit n, rest)

/-- The character that a backslash and `c` denote. -/
def simpleEscape? (c : Char) : Option Char :=
  match c with
  | '"' => some '"'
  | '\\' => some '\\'
  | '/' => some '/'
  | 'b' => some '\x08'
  | 'f' => some '\x0c'
  | 'n' => some '\n'
  | 'r' => some '\r'
  | 't' => some '\t'
  | _ => none

/-- The rest of a string whose opening quote had `opened` characters from it to the end. At most
`fuel` characters are read; `seen` holds those read so far, last first. -/
def readString (opened : Nat) : Nat → List Char → Step String
  | 0, _, _ => .error (.problem .unterminatedString opened)
  | _ + 1, _, [] => .error (.problem .unterminatedString opened)
  | fuel + 1, seen, c :: cs =>
    if c = '"' then .ok (.ofList seen.reverse, cs)
    else if c = '\\' then
      match cs with
      | [] => .error (.problem .unterminatedString opened)
      | 'u' :: rest => do
        let (d, rest) ← readEscapedUnit rest
        readString opened fuel (d :: seen) rest
      | e :: rest =>
        match simpleEscape? e with
        | some d => readString opened fuel (d :: seen) rest
        | none => .error (.problem .invalidEscape (cs.length + 1))
    else if c.toNat ≤ 0x1f then .error (.problem .controlCharacter (cs.length + 1))
    else readString opened fuel (c :: seen) cs

/-- Whether a character is an ASCII digit. -/
def isDigit (c : Char) : Bool := '0' ≤ c && c ≤ '9'

/-- The number denoted by ASCII digits. -/
def decimalNumber (ds : List Char) : Nat :=
  ds.foldl (fun n c => 10 * n + (c.toNat - '0'.toNat)) 0

/-- The digits after a point, if the point and a digit stand there. -/
def readFraction (cs : List Char) : Option (List Char × List Char) :=
  match cs with
  | '.' :: rest =>
    let ds := rest.takeWhile isDigit
    if ds.isEmpty then none else some (ds, rest.dropWhile isDigit)
  | _ => none

/-- The exponent, if its mark and a digit stand there. -/
def readExponent (cs : List Char) : Option (Int × List Char) :=
  match cs with
  | e :: rest =>
    if e = 'e' ∨ e = 'E' then
      let (negative, rest) :=
        match rest with
        | '-' :: r => (true, r)
        | '+' :: r => (false, r)
        | r => (false, r)
      let ds := rest.takeWhile isDigit
      if ds.isEmpty then none
      else
        let n : Int := decimalNumber ds
        some (if negative then -n else n, rest.dropWhile isDigit)
    else none
  | [] => none

/-- A number at the head of `cs`. -/
def readNumber : Step Json := fun cs =>
  let (negative, digits) :=
    match cs with
    | '-' :: rest => (true, rest)
    | rest => (false, rest)
  let whole :=
    match digits with
    | '0' :: _ => ['0']
    | rest => rest.takeWhile isDigit
  if whole.isEmpty then .error (.problem .expectingValue cs.length)
  else
    let rest := digits.drop whole.length
    match readFraction rest, readExponent ((readFraction rest).elim rest (·.2)) with
    | none, none =>
      let n : Int := decimalNumber whole
      if Text.maxDigits < whole.length then .error (.excess (.digits whole.length))
      else .ok (.int (if negative then -n else n), rest)
    | fraction, exponent =>
      let fractionDigits := fraction.elim [] (·.1)
      let all := whole ++ fractionDigits
      let e := exponent.elim 0 (·.1)
      let last := exponent.elim (fraction.elim rest (·.2)) (·.2)
      .ok (.float (.ofDecimal negative (decimalNumber all) all.length (e - fractionDigits.length)),
        last)

/-- The words that denote values. -/
def words : List (List Char × Json) :=
  [("null".toList, .null), ("true".toList, .bool true), ("false".toList, .bool false),
    ("NaN".toList, .float .nan), ("Infinity".toList, .float (.infinity false)),
    ("-Infinity".toList, .float (.infinity true))]

/-- The word at the head of `cs`. -/
def readWord? (cs : List Char) : Option (Json × List Char) :=
  (words.find? (·.1.isPrefixOf cs)).map fun w => (w.2, cs.drop w.1.length)

mutual

/-- A value at the head of the text, in which lists and tables may be nested as deep as `room` says.
The fuel bounds the number of nested calls: two for each character are enough, since a list or table
takes two calls and a character, and an item takes one call and is followed by a comma. -/
def readValue : Nat → Nat → Step Json
  | 0, _, cs => .error (.problem .expectingValue cs.length)
  | fuel + 1, room, cs =>
    match cs with
    | '"' :: rest => do
      let (s, rest) ← readString cs.length cs.length [] rest
      return (.str s, rest)
    | '[' :: rest =>
      match room with
      | 0 => .error (.excess (.depth true))
      | room + 1 =>
        match skipBlanks rest with
        | ']' :: last => .ok (.arr [], last)
        | items => readItems fuel room [] items
    | '\x7b' :: rest =>
      match room with
      | 0 => .error (.excess (.depth false))
      | room + 1 =>
        match skipBlanks rest with
        | '\x7d' :: last => .ok (.obj [], last)
        | fields => readFields fuel room [] fields
    | _ =>
      match readWord? cs with
      | some result => .ok result
      | none => readNumber cs

/-- The items of a list from the next one on; `seen` holds those before it, last first. -/
def readItems : Nat → Nat → List Json → Step Json
  | 0, _, _, cs => .error (.problem .expectingValue cs.length)
  | fuel + 1, room, seen, cs => do
    let (v, rest) ← readValue fuel room cs
    match skipBlanks rest with
    | ']' :: last => return (.arr (v :: seen).reverse, last)
    | ',' :: more => readItems fuel room (v :: seen) (skipBlanks more)
    | other => .error (.problem .expectingComma other.length)

/-- The fields of a table from the next one on; `seen` holds those before it. -/
def readFields : Nat → Nat → List (String × Json) → Step Json
  | 0, _, _, cs => .error (.problem .expectingName cs.length)
  | fuel + 1, room, seen, cs =>
    match cs with
    | '"' :: rest => do
      let (k, rest) ← readString cs.length cs.length [] rest
      match skipBlanks rest with
      | ':' :: afterColon =>
        let (v, rest) ← readValue fuel room (skipBlanks afterColon)
        let fields := Entries.set seen k v
        match skipBlanks rest with
        | '\x7d' :: last => return (.obj fields, last)
        | ',' :: more => readFields fuel room fields (skipBlanks more)
        | other => .error (.problem .expectingComma other.length)
      | other => .error (.problem .expectingColon other.length)
    | other => .error (.problem .expectingName other.length)

end

/-! ## Whole texts -/

/-- The place in `cs` at which `left` characters are left. -/
def placed (cs : List Char) (problem : Problem) (left : Nat) : Malformed :=
  let before := cs.take (cs.length - left)
  { problem
    line := before.count '\n' + 1
    column := (before.reverse.takeWhile (· ≠ '\n')).length + 1
    offset := before.length }

/-- The value of a text. -/
def read (s : String) : Except Unreadable Json :=
  let cs := s.toList
  if cs.head? = some '\ufeff' then .error (.malformed (placed cs .byteOrderMark cs.length))
  else
    match readValue (2 * cs.length + 2) maxDepth (skipBlanks cs) with
    | .error (.problem problem left) => .error (.malformed (placed cs problem left))
    | .error (.excess cause) => .error (.excess cause)
    | .ok (v, rest) =>
      match skipBlanks rest with
      | [] => .ok v
      | extra => .error (.malformed (placed cs .extraData extra.length))

end RegionLogic.Json
