import RegionLogic.Json.Reader

/-!
# Reading settings files

Settings are written in TOML: lines `key = value` under headers `[table]` and `[[list of tables]]`.
The document is read into the fields of a JSON object, in the order in which they are first
mentioned. A key is given once, a table is opened by one header, and a table that a dotted key or an
inline table has defined is not opened again.

## Main definitions

* `Toml.Malformed`: what is wrong with a document, and where
* `Toml.Node`: a table under construction
* `Toml.read`: the fields of a document
-/

namespace RegionLogic.Toml

/-- What is wrong with a document. -/
inductive Problem where
  /-- A character that cannot stand at its place. -/
  | unexpected (c : Char)
  /-- The document ends too early. -/
  | endOfDocument
  /-- A key is empty. -/
  | emptyKey
  /-- A control character stands in a text or a comment. -/
  | controlCharacter (c : Char)
  /-- A backslash precedes a character that has no escape. -/
  | invalidEscape
  /-- A word is no value. -/
  | invalidValue (word : String)
  /-- A key or table is defined twice. -/
  | duplicate (key : String)
  deriving DecidableEq

/-- The wording of a problem. -/
def Problem.text : Problem → String
  | unexpected c => "Unexpected character: " ++ Text.quoted (.ofList [c])
  | endOfDocument => "Unexpected end of file"
  | emptyKey => "Empty key"
  | controlCharacter c =>
    "Control characters (codes less than 0x1f and 0x7f) are not allowed: " ++
      Text.quoted (.ofList [c])
  | invalidEscape => "Invalid character in string"
  | invalidValue word => "Invalid value: " ++ word
  | duplicate key => "Key \"" ++ key ++ "\" already exists."

/-- A problem and its place in the document. -/
structure Malformed where
  problem : Problem
  /-- The line, counted from one. -/
  line : Nat
  /-- The number of characters before the place in its line. -/
  column : Nat
  deriving DecidableEq

/-- The message for a malformed document. -/
def Malformed.message (m : Malformed) : String :=
  m.problem.text ++ " at line " ++ toString m.line ++ " col " ++ toString m.column

/-- A problem with the number of characters left at its place. -/
abbrev Stop := Problem × Nat

/-- A step of the reader: what it has read, and the rest. -/
abbrev Step (α : Type) := List Char → Except Stop (α × List Char)

/-- The fault that the characters left cannot go on here. -/
def stuck {α : Type} : List Char → Except Stop α
  | [] => .error (.endOfDocument, 0)
  | c :: cs => .error (.unexpected c, cs.length + 1)

/-! ## Blanks and comments -/

/-- The characters after spaces and tabs. -/
def skipSpaces (cs : List Char) : List Char := cs.dropWhile fun c => c = ' ' || c = '\t'

/-- Whether a character is a control character other than a tab. -/
def isControl (c : Char) : Bool := (c.toNat < 0x20 && c != '\t') || c.toNat = 0x7f

/-- The characters after a comment, if one stands here, up to the end of the line. -/
def skipComment (cs : List Char) : Except Stop (List Char) :=
  match cs with
  | '#' :: rest =>
    let rest := rest.dropWhile fun c => !isControl c
    match rest with
    | [] => .ok []
    | '\n' :: _ => .ok rest
    | '\r' :: '\n' :: _ => .ok rest
    | c :: more => .error (.controlCharacter c, more.length + 1)
  | _ => .ok cs

/-- The characters after the end of a line, which may hold a comment. -/
def endLine (cs : List Char) : Except Stop (List Char) := do
  let rest ← skipComment (skipSpaces cs)
  match rest with
  | [] => return []
  | '\n' :: more => return more
  | '\r' :: '\n' :: more => return more
  | _ => stuck rest

/-- The characters after blanks, line ends and comments. At most `fuel` lines are skipped. -/
def skipLines : Nat → List Char → Except Stop (List Char)
  | 0, cs => .ok cs
  | fuel + 1, cs => do
    let rest ← skipComment (skipSpaces cs)
    match rest with
    | '\n' :: more => skipLines fuel more
    | '\r' :: '\n' :: more => skipLines fuel more
    | _ => return rest

/-! ## Texts -/

/-- The character that an escape denotes, where `cs` follows the backslash. -/
def readEscape : Step Char := fun cs =>
  match cs with
  | 'b' :: rest => .ok ('\x08', rest)
  | 't' :: rest => .ok ('\t', rest)
  | 'n' :: rest => .ok ('\n', rest)
  | 'f' :: rest => .ok ('\x0c', rest)
  | 'r' :: rest => .ok ('\r', rest)
  | 'e' :: rest => .ok ('\x1b', rest)
  | '"' :: rest => .ok ('"', rest)
  | '\\' :: rest => .ok ('\\', rest)
  | 'x' :: rest => unit 2 rest
  | 'u' :: rest => unit 4 rest
  | 'U' :: rest => unit 8 rest
  | _ => .error (.invalidEscape, cs.length)
where
  /-- The character given by `width` hexadecimal digits. -/
  unit (width : Nat) (cs : List Char) : Except Stop (Char × List Char) :=
    if cs.length < width then .error (.invalidEscape, cs.length)
    else
      match Json.hexNumber? (cs.take width) with
      | some n =>
        if n.isValidChar then .ok (Char.ofNat n, cs.drop width)
        else .error (.invalidEscape, cs.length)
      | none => .error (.invalidEscape, cs.length)

/-- The rest of a text on one line that ends at `quote`. A backslash has a meaning between double
quotes only. -/
def readLineText (quote : Char) : Nat → List Char → Step String
  | 0, _, cs => stuck cs
  | fuel + 1, seen, cs =>
    match cs with
    | [] => .error (.endOfDocument, 0)
    | c :: rest =>
      if c = quote then .ok (.ofList seen.reverse, rest)
      else if c = '\\' ∧ quote = '"' then do
        let (d, rest) ← readEscape rest
        readLineText quote fuel (d :: seen) rest
      else if isControl c then .error (.controlCharacter c, cs.length)
      else readLineText quote fuel (c :: seen) rest

/-- The characters after a line break that a backslash hides, if only blanks stand between. -/
def skipHiddenBreak? (cs : List Char) : Option (List Char) :=
  let blank := fun c => c = ' ' || c = '\t' || c = '\n' || c = '\r'
  match skipSpaces cs with
  | '\n' :: rest => some (rest.dropWhile blank)
  | '\r' :: '\n' :: rest => some (rest.dropWhile blank)
  | _ => none

/-- The rest of a text over several lines that ends at three quotes. Up to two quotes may stand
directly before them. -/
def readBlockText (quote : Char) : Nat → List Char → Step String
  | 0, _, cs => stuck cs
  | fuel + 1, seen, cs =>
    match cs with
    | [] => .error (.endOfDocument, 0)
    | c :: rest =>
      if c = quote then
        let run := cs.takeWhile (· = quote)
        if run.length < 3 then readBlockText quote fuel (c :: seen) rest
        else if run.length ≤ 5 then
          .ok (.ofList ((List.replicate (run.length - 3) quote ++ seen).reverse),
            cs.drop run.length)
        else stuck (cs.drop 5)
      else if c = '\\' ∧ quote = '"' then
        match skipHiddenBreak? rest with
        | some more => readBlockText quote fuel seen more
        | none => do
          let (d, rest) ← readEscape rest
          readBlockText quote fuel (d :: seen) rest
      else if c = '\n' ∨ (c = '\r' ∧ rest.head? = some '\n') then
        readBlockText quote fuel (c :: seen) rest
      else if isControl c then .error (.controlCharacter c, cs.length)
      else readBlockText quote fuel (c :: seen) rest

/-- A text that begins with `quote`, of which `cs` holds what follows. -/
def readText (quote : Char) : Step String := fun cs =>
  match cs with
  | a :: b :: rest =>
    if a = quote ∧ b = quote then
      let body :=
        match rest with
        | '\n' :: more => more
        | '\r' :: '\n' :: more => more
        | _ => rest
      readBlockText quote (body.length + 1) [] body
    else readLineText quote (cs.length + 1) [] cs
  | _ => readLineText quote (cs.length + 1) [] cs

/-! ## Keys -/

/-- Whether a character may stand in a key without quotes. -/
def isBare (c : Char) : Bool :=
  ('a' ≤ c && c ≤ 'z') || ('A' ≤ c && c ≤ 'Z') || Json.isDigit c || c = '-' || c = '_'

/-- One part of a key. -/
def readKeyPart : Step String := fun cs =>
  match cs with
  | '"' :: rest => readLineText '"' (rest.length + 1) [] rest
  | '\'' :: rest => readLineText '\'' (rest.length + 1) [] rest
  | _ =>
    let bare := cs.takeWhile isBare
    if bare.isEmpty then
      match cs with
      | [] => stuck cs
      | _ => .error (.emptyKey, cs.length)
    else .ok (.ofList bare, cs.drop bare.length)

/-- A key of parts between dots. -/
def readKey : Nat → Step (List String)
  | 0, cs => stuck cs
  | fuel + 1, cs => do
    let (part, rest) ← readKeyPart (skipSpaces cs)
    match skipSpaces rest with
    | '.' :: more =>
      let (parts, last) ← readKey fuel more
      return (part :: parts, last)
    | other => return ([part], other)

/-! ## Numbers and words -/

/-- Digits between which single underscores may stand, without the underscores. -/
def joinDigits? (isDigit : Char → Bool) (cs : List Char) : Option (List Char) :=
  match cs with
  | [] => none
  | c :: rest => if isDigit c then (go rest).map (c :: ·) else none
where
  /-- The digits after the first one. -/
  go : List Char → Option (List Char)
    | [] => some []
    | '_' :: d :: rest => if isDigit d then (go rest).map (d :: ·) else none
    | d :: rest => if isDigit d then (go rest).map (d :: ·) else none

/-- The number denoted by digits of a base up to sixteen. -/
def baseNumber? (base : Nat) (cs : List Char) : Option Nat := do
  let digit c := (Json.hexValue? c).filter (· < base)
  let ds ← joinDigits? (fun c => (digit c).isSome) cs
  ds.foldlM (fun n c => (digit c).map (base * n + ·)) 0

/-- A decimal number without sign: an integer, or a float if it has a fraction or an exponent. -/
def decimal? (negative : Bool) (cs : List Char) : Option Json := do
  let isPart := fun c => Json.isDigit c || c = '_'
  let whole ← joinDigits? Json.isDigit (cs.takeWhile isPart)
  if 1 < whole.length ∧ whole.head? = some '0' then none
  else
    let rest := cs.dropWhile isPart
    let (fraction, rest) ←
      match rest with
      | '.' :: more =>
        (joinDigits? Json.isDigit (more.takeWhile isPart)).map fun ds =>
          (some ds, more.dropWhile isPart)
      | _ => some (none, rest)
    let exponent ←
      match rest with
      | [] => some none
      | e :: more =>
        if e = 'e' ∨ e = 'E' then
          match more with
          | '-' :: ds => (joinDigits? Json.isDigit ds).map fun ds => some (true, ds)
          | '+' :: ds => (joinDigits? Json.isDigit ds).map fun ds => some (false, ds)
          | ds => (joinDigits? Json.isDigit ds).map fun ds => some (false, ds)
        else none
    match fraction, exponent with
    | none, none =>
      let n : Int := Json.decimalNumber whole
      return .int (if negative then -n else n)
    | _, _ =>
      let digits := whole ++ fraction.getD []
      let e : Int :=
        match exponent with
        | none => 0
        | some (true, ds) => -(Json.decimalNumber ds : Int)
        | some (false, ds) => Json.decimalNumber ds
      return .float (.ofDecimal negative (Json.decimalNumber digits) digits.length
        (e - (fraction.getD []).length))

/-- The value of a word that stands for a truth value or a number. -/
def word? (cs : List Char) : Option Json :=
  let signed (negative : Bool) (rest : List Char) : Option Json :=
    if rest = "inf".toList then some (.float (.infinity negative))
    else if rest = "nan".toList then some (.float .nan)
    else decimal? negative rest
  match cs with
  | ['t', 'r', 'u', 'e'] => some (.bool true)
  | ['f', 'a', 'l', 's', 'e'] => some (.bool false)
  | '-' :: rest => signed true rest
  | '+' :: rest => signed false rest
  | '0' :: 'x' :: rest => (baseNumber? 16 rest).map fun n => .int n
  | '0' :: 'o' :: rest => (baseNumber? 8 rest).map fun n => .int n
  | '0' :: 'b' :: rest => (baseNumber? 2 rest).map fun n => .int n
  | _ => signed false cs

/-- A truth value or a number at the head of `cs`. -/
def readWord : Step Json := fun cs =>
  let word := cs.takeWhile fun c => isBare c || c = '+' || c = '.'
  if word.isEmpty then stuck cs
  else
    match word? word with
    | some v => .ok (v, cs.drop word.length)
    | none => .error (.invalidValue (.ofList word), cs.length)

/-! ## Tables under construction -/

/-- How a table came to be. -/
inductive Origin where
  /-- As a table that a longer header leads through. -/
  | passage
  /-- By a header of its own. -/
  | header
  /-- By a dotted key. -/
  | dotted
  deriving DecidableEq

/-- A part of the document. -/
inductive Node where
  | value (v : Json)
  | table (origin : Origin) (entries : List (String × Node))
  /-- A list of tables opened by double headers; the first is the latest. -/
  | tables (items : List (List (String × Node)))

mutual

/-- The value of a part of the document. -/
def Node.toJson : Node → Json
  | .value v => v
  | .table _ entries => .obj (Node.entriesToJson entries)
  | .tables items => .arr (Node.itemsToJson items).reverse

/-- The values of the entries of a table. -/
def Node.entriesToJson : List (String × Node) → List (String × Json)
  | [] => []
  | (k, n) :: es => (k, n.toJson) :: Node.entriesToJson es

/-- The values of the tables of a list. -/
def Node.itemsToJson : List (List (String × Node)) → List Json
  | [] => []
  | es :: items => .obj (Node.entriesToJson es) :: Node.itemsToJson items

end

/-- The entries with the key given by a line `key = value`, or the key that is defined already. -/
def define (v : Json) : List String → List (String × Node) → Except String (List (String × Node))
  | [], es => .ok es
  | [k], es => if Entries.has es k then .error k else .ok (Entries.set es k (.value v))
  | k :: ks, es =>
    match Entries.find? es k with
    | none => (define v ks []).map fun inner => Entries.set es k (.table .dotted inner)
    | some (.table .dotted inner) =>
      (define v ks inner).map fun inner => Entries.set es k (.table .dotted inner)
    | some _ => .error k

/-- The entries with the table that a header opens: a further one of a list for a double header. -/
def openTable (double : Bool) : List String → List (String × Node) →
    Except String (List (String × Node))
  | [], es => .ok es
  | [k], es =>
    match double, Entries.find? es k with
    | false, none => .ok (Entries.set es k (.table .header []))
    | false, some (.table .passage inner) => .ok (Entries.set es k (.table .header inner))
    | true, none => .ok (Entries.set es k (.tables [[]]))
    | true, some (.tables items) => .ok (Entries.set es k (.tables ([] :: items)))
    | _, _ => .error k
  | k :: ks, es =>
    match Entries.find? es k with
    | none => (openTable double ks []).map fun inner => Entries.set es k (.table .passage inner)
    | some (.table origin inner) =>
      (openTable double ks inner).map fun inner => Entries.set es k (.table origin inner)
    | some (.tables (latest :: items)) =>
      (openTable double ks latest).map fun latest => Entries.set es k (.tables (latest :: items))
    | some _ => .error k

/-- The entries with a line `key = value` added to the table at `path`. -/
def defineAt (key : List String) (v : Json) : List String → List (String × Node) →
    Except String (List (String × Node))
  | [], es => define v key es
  | k :: path, es =>
    match Entries.find? es k with
    | some (.table origin inner) =>
      (defineAt key v path inner).map fun inner => Entries.set es k (.table origin inner)
    | some (.tables (latest :: items)) =>
      (defineAt key v path latest).map fun latest => Entries.set es k (.tables (latest :: items))
    | _ => .error k

/-! ## Values -/

mutual

/-- A value at the head of the document. The fuel bounds the nested calls; two for each character
are enough. -/
def readValue : Nat → Step Json
  | 0, cs => stuck cs
  | fuel + 1, cs =>
    match cs with
    | '"' :: rest => do
      let (s, rest) ← readText '"' rest
      return (.str s, rest)
    | '\'' :: rest => do
      let (s, rest) ← readText '\'' rest
      return (.str s, rest)
    | '[' :: rest => readItems fuel [] rest
    | '\x7b' :: rest => readFields fuel [] rest
    | _ => readWord cs

/-- The items of a list up to its end; `seen` holds those before, last first. -/
def readItems : Nat → List Json → Step Json
  | 0, _, cs => stuck cs
  | fuel + 1, seen, cs => do
    let cs ← skipLines (cs.length + 1) cs
    match cs with
    | ']' :: last => return (.arr seen.reverse, last)
    | _ =>
      let (v, rest) ← readValue fuel cs
      let rest ← skipLines (rest.length + 1) rest
      match rest with
      | ']' :: last => return (.arr (v :: seen).reverse, last)
      | ',' :: more => readItems fuel (v :: seen) more
      | _ => stuck rest

/-- The fields of an inline table up to its end, after those in `seen`. The table may extend over
several lines, and a comma may follow its last field. -/
def readFields : Nat → List (String × Node) → Step Json
  | 0, _, cs => stuck cs
  | fuel + 1, seen, cs => do
    let cs ← skipLines (cs.length + 1) cs
    match cs with
    | '\x7d' :: last => return (.obj (Node.entriesToJson seen), last)
    | _ =>
      let (key, rest) ← readKey (cs.length + 1) cs
      match rest with
      | '=' :: afterSign =>
        let (v, rest) ← readValue fuel (skipSpaces afterSign)
        match define v key seen with
        | .error k => .error (.duplicate k, cs.length)
        | .ok seen =>
          let rest ← skipLines (rest.length + 1) rest
          match rest with
          | '\x7d' :: last => return (.obj (Node.entriesToJson seen), last)
          | ',' :: more => readFields fuel seen more
          | _ => stuck rest
      | _ => stuck rest

end

/-! ## Documents -/

/-- A document under construction: its entries and the table that lines are added to. -/
structure Document where
  /-- The entries of the document. -/
  entries : List (String × Node)
  /-- The path of the table opened last. -/
  current : List String

/-- The header whose first bracket stands before `cs`. -/
def readHeader (double : Bool) (d : Document) (cs : List Char) :
    Except Stop (Document × List Char) := do
  let (key, rest) ← readKey (cs.length + 1) cs
  let last ←
    match double, rest with
    | false, ']' :: last => pure last
    | true, ']' :: ']' :: last => pure last
    | _, _ => stuck rest
  match openTable double key d.entries with
  | .error k => .error (.duplicate k, cs.length)
  | .ok entries => return (⟨entries, key⟩, ← endLine last)

/-- The line `key = value` at the head of `cs`. -/
def readLine (d : Document) (cs : List Char) : Except Stop (Document × List Char) := do
  let (key, rest) ← readKey (cs.length + 1) cs
  match rest with
  | '=' :: afterSign =>
    let (v, rest) ← readValue (2 * cs.length + 2) (skipSpaces afterSign)
    match defineAt key v d.current d.entries with
    | .error k => .error (.duplicate k, cs.length)
    | .ok entries => return (⟨entries, d.current⟩, ← endLine rest)
  | _ => stuck rest

/-- The lines of a document. At most `fuel` lines are read. -/
def readLines : Nat → Document → List Char → Except Stop Document
  | 0, d, _ => .ok d
  | fuel + 1, d, cs => do
    let cs ← skipLines (cs.length + 1) cs
    match cs with
    | [] => return d
    | '[' :: '[' :: rest =>
      let (d, rest) ← readHeader true d rest
      readLines fuel d rest
    | '[' :: rest =>
      let (d, rest) ← readHeader false d rest
      readLines fuel d rest
    | _ =>
      let (d, rest) ← readLine d cs
      readLines fuel d rest

/-- The fields of a document. -/
def read (s : String) : Except Malformed (List (String × Json)) :=
  let cs := s.toList
  match readLines (cs.length + 1) ⟨[], []⟩ cs with
  | .ok d => .ok (Node.entriesToJson d.entries)
  | .error (problem, left) =>
    let before := cs.take (cs.length - left)
    .error
      { problem
        line := before.count '\n' + 1
        column := (before.reverse.takeWhile (· ≠ '\n')).length }

end RegionLogic.Toml
