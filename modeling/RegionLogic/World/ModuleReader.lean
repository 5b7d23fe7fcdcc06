import RegionLogic.Entries
import RegionLogic.Json.Reader

/-!
# Reading data modules

A data module is loaded by programs that follow rules of their own. Each of its lines is empty, is a comment
or assigns a literal to a name; between brackets a literal goes on over line ends. Of assignments to one name,
and of fields with one name, the last one counts.

A text literal stands between two quotes or two apostrophes. A backslash begins an escape, which may denote a
code point by its octal or hexadecimal digits; a backslash that begins no escape stands for itself. Each escape
denotes one code point, so the escapes of a surrogate pair denote the two surrogates.

The reader goes through the characters one by one. It refuses what is no literal of this kind: numbers,
expressions, escapes by the name of a character, and texts with line ends in them.

## Main definitions

* `DataModule.Literal`: what literals denote
* `DataModule.Reader.step`: what the reader makes of a character
* `DataModule.read`: the values that a module assigns
-/

namespace RegionLogic.DataModule

/-- What a literal denotes. A text is a list of code points, surrogates among them. -/
inductive Literal where
  | absent
  | truth (b : Bool)
  | text (points : List Nat)
  | list (items : List Literal)
  /-- A table of values that are named by texts. -/
  | table (fields : List (List Nat × Literal))
  deriving Inhabited

/-- Where a literal stands. -/
inductive Context where
  /-- It is assigned to a name. -/
  | binding (name : String)
  /-- It follows the items of a list. -/
  | item (items : List Literal) (outer : Context)
  /-- It names a field that follows the fields of a table. -/
  | key (fields : List (List Nat × Literal)) (outer : Context)
  /-- It is the value of such a field. -/
  | field (fields : List (List Nat × Literal)) (key : List Nat) (outer : Context)

/-- Whether a literal stands between no brackets. -/
def Context.isOutermost : Context → Bool
  | binding _ => true
  | _ => false

/-- The container that a bracket completes, and where it stands. -/
def Context.close? : Context → Char → Option (Literal × Context)
  | item items outer, ']' => some (.list items, outer)
  | key fields outer, '\x7d' => some (.table fields, outer)
  | _, _ => none

/-- A text literal that is not complete. -/
structure OpenText where
  /-- The character in front of it. -/
  quote : Char
  /-- The code points so far. -/
  points : List Nat
  context : Context

/-- The text with one more code point. -/
def OpenText.push (t : OpenText) (n : Nat) : OpenText := { t with points := t.points ++ [n] }

/-- What the reader is at. -/
inductive Mode where
  /-- The start of a line. -/
  | line
  | comment
  /-- A name that is not complete. -/
  | name (cs : List Char)
  /-- The place between a name and the equals sign. -/
  | equals (name : String)
  /-- The place before a literal. -/
  | start (k : Context)
  | text (t : OpenText)
  /-- The place after a backslash in a text. -/
  | escape (t : OpenText)
  /-- An escape that denotes `n` so far and lacks so many hexadecimal digits. -/
  | hex (left n : Nat) (t : OpenText)
  /-- An escape that denotes `n` so far and may have so many octal digits more. -/
  | octal (left n : Nat) (t : OpenText)
  | word (cs : List Char) (k : Context)
  /-- The place between the name of a field and the colon. -/
  | colon (fields : List (List Nat × Literal)) (key : List Nat) (outer : Context)
  /-- The place after an item or a field. -/
  | next (k : Context)
  /-- The place after an assignment. -/
  | lineEnd

/-- The values that have been assigned, and what the reader is at. -/
structure Reader where
  bindings : List (String × Literal)
  mode : Mode

/-! ## Characters and words -/

def isBlank (c : Char) : Bool := c = ' ' || c = '\t'

def isWordStart (c : Char) : Bool := c.isAlpha || c = '_'

def isWordRest (c : Char) : Bool := c.isAlphanum || c = '_'

/-- The code point that a backslash and a character denote. -/
def simpleEscape? : Char → Option Nat
  | '\\' => some 0x5c
  | '\'' => some 0x27
  | '"' => some 0x22
  | 'a' => some 0x07
  | 'b' => some 0x08
  | 'f' => some 0x0c
  | 'n' => some 0x0a
  | 'r' => some 0x0d
  | 't' => some 0x09
  | 'v' => some 0x0b
  | _ => none

/-- What a word denotes. -/
def wordValue? (cs : List Char) : Option Literal :=
  if cs = ['N', 'o', 'n', 'e'] then some .absent
  else if cs = ['T', 'r', 'u', 'e'] then some (.truth true)
  else if cs = ['F', 'a', 'l', 's', 'e'] then some (.truth false)
  else none

/-- The words that nothing can be assigned to. -/
def reservedWords : List String :=
  ["False", "None", "True", "and", "as", "assert", "async", "await", "break", "class", "continue", "def",
    "del", "elif", "else", "except", "finally", "for", "from", "global", "if", "import", "in", "is", "lambda",
    "nonlocal", "not", "or", "pass", "raise", "return", "try", "while", "with", "yield", "__debug__"]

/-! ## Steps -/

namespace Reader

variable (bindings : List (String × Literal))

/-- A literal is complete. -/
def deliver (v : Literal) : Context → Option Reader
  | .binding name => some ⟨Entries.set bindings name v, .lineEnd⟩
  | .item items outer => some ⟨bindings, .next (.item (items ++ [v]) outer)⟩
  | .key fields outer =>
    match v with
    | .text key => some ⟨bindings, .colon fields key outer⟩
    | _ => none
  | .field fields key outer => some ⟨bindings, .next (.key (Entries.set fields key v) outer)⟩

/-- A container is complete if the character is its closing bracket. -/
def close (k : Context) (c : Char) : Option Reader := do
  let (v, outer) ← k.close? c
  deliver bindings v outer

/-- A character before a literal. -/
def stepStart (k : Context) (c : Char) : Option Reader :=
  if isBlank c || c = '\n' && !k.isOutermost then some ⟨bindings, .start k⟩
  else if c = '"' || c = '\'' then some ⟨bindings, .text ⟨c, [], k⟩⟩
  else if c = '[' then some ⟨bindings, .start (.item [] k)⟩
  else if c = '\x7b' then some ⟨bindings, .start (.key [] k)⟩
  else if isWordStart c then some ⟨bindings, .word [c] k⟩
  else close bindings k c

/-- A character after a literal. -/
def stepAfter (r : Reader) (c : Char) : Option Reader :=
  match r.mode with
  | .next k =>
    if isBlank c || c = '\n' then some r
    else if c = ',' then some ⟨r.bindings, .start k⟩
    else close r.bindings k c
  | .colon fields key outer =>
    if isBlank c || c = '\n' then some r
    else if c = ':' then some ⟨r.bindings, .start (.field fields key outer)⟩
    else none
  | .lineEnd =>
    if isBlank c then some r
    else if c = '\n' then some ⟨r.bindings, .line⟩
    else if c = '#' then some ⟨r.bindings, .comment⟩
    else none
  | _ => none

/-- A character of a text. -/
def stepText (t : OpenText) (c : Char) : Option Reader :=
  if c = t.quote then deliver bindings (.text t.points) t.context
  else if c = '\\' then some ⟨bindings, .escape t⟩
  else if c = '\n' || c = '\r' || c = '\x00' then none
  else some ⟨bindings, .text (t.push c.toNat)⟩

/-- A character after a backslash. -/
def stepEscape (t : OpenText) (c : Char) : Option Reader :=
  if c = '\n' then some ⟨bindings, .text t⟩
  else if c = 'x' then some ⟨bindings, .hex 2 0 t⟩
  else if c = 'u' then some ⟨bindings, .hex 4 0 t⟩
  else if c = 'U' then some ⟨bindings, .hex 8 0 t⟩
  else if '0' ≤ c && c ≤ '7' then some ⟨bindings, .octal 2 (c.toNat - '0'.toNat) t⟩
  else if c = 'N' || c = '\r' || c = '\x00' then none
  else
    match simpleEscape? c with
    | some n => some ⟨bindings, .text (t.push n)⟩
    | none => some ⟨bindings, .text ((t.push '\\'.toNat).push c.toNat)⟩

/-- A digit of an escape that lacks `left` hexadecimal digits. -/
def stepHex (left n : Nat) (t : OpenText) (c : Char) : Option Reader := do
  let n := 16 * n + (← Json.hexValue? c)
  if left > 1 then return ⟨bindings, .hex (left - 1) n t⟩
  else if n ≤ 0x10ffff then return ⟨bindings, .text (t.push n)⟩
  else none

/-- A character after the first digit of an escape that may have `left` octal digits more. -/
def stepOctal (left n : Nat) (t : OpenText) (c : Char) : Option Reader :=
  if 0 < left && '0' ≤ c && c ≤ '7' then
    some ⟨bindings, .octal (left - 1) (8 * n + (c.toNat - '0'.toNat)) t⟩
  else stepText bindings (t.push n) c

/-- A character after the first one of a word. -/
def stepWord (cs : List Char) (k : Context) (c : Char) : Option Reader :=
  if isWordRest c then some ⟨bindings, .word (cs ++ [c]) k⟩
  else do stepAfter (← deliver bindings (← wordValue? cs) k) c

/-- A character after a name. -/
def stepEquals (name : String) (c : Char) : Option Reader :=
  if name ∈ reservedWords then none
  else if isBlank c then some ⟨bindings, .equals name⟩
  else if c = '=' then some ⟨bindings, .start (.binding name)⟩
  else none

/-- What the reader makes of a character. -/
def step (r : Reader) (c : Char) : Option Reader :=
  match r.mode with
  | .line =>
    if c = '\n' then some r
    else if c = '#' then some ⟨r.bindings, .comment⟩
    else if isWordStart c then some ⟨r.bindings, .name [c]⟩
    else none
  | .comment =>
    if c = '\n' then some ⟨r.bindings, .line⟩ else if c = '\r' || c = '\x00' then none else some r
  | .name cs =>
    if isWordRest c then some ⟨r.bindings, .name (cs ++ [c])⟩ else stepEquals r.bindings (.ofList cs) c
  | .equals name => stepEquals r.bindings name c
  | .start k => stepStart r.bindings k c
  | .text t => stepText r.bindings t c
  | .escape t => stepEscape r.bindings t c
  | .hex left n t => stepHex r.bindings left n t c
  | .octal left n t => stepOctal r.bindings left n t c
  | .word cs k => stepWord r.bindings cs k c
  | .colon .. | .next _ | .lineEnd => stepAfter r c

/-- What the reader makes of characters. -/
def run (cs : List Char) (r : Reader) : Option Reader := cs.foldlM step r

end Reader

/-- The values that a module assigns, by their names. -/
def read (text : String) : Option (List (String × Literal)) := do
  let r ← Reader.run text.toList ⟨[], .line⟩
  match r.mode with
  | .line | .comment | .lineEnd => return r.bindings
  | _ => none

end RegionLogic.DataModule
