import RegionLogic.Pattern.Scan
import RegionLogic.Text.CharacterName

/-!
# Escapes in patterns

A backslash gives the character after it another meaning: letters stand for sets of characters, for
control characters, for empty stretches at edges or for characters by number or name, digits for
characters by octal number or for the stretch of a group once more, and anything else for itself.

## Main definitions

* `Pattern.Member`: what stands for characters
* `Pattern.readMemberEscape`: escapes inside brackets
* `Pattern.readEscape`: escapes outside brackets
-/

namespace RegionLogic.Pattern

/-! ## Tables -/

/-- What stands for one character of a set. -/
inductive Member where
  /-- The character with the given code point. -/
  | char (n : Nat)
  /-- The characters of a kind, or all others if negated. -/
  | kind (k : CharKind) (negated : Bool)

/-- The sets of characters that have an escape. -/
def kindEscape? : Char → Option Member
  | 'd' => some (.kind .digit false)
  | 'D' => some (.kind .digit true)
  | 's' => some (.kind .blank false)
  | 'S' => some (.kind .blank true)
  | 'w' => some (.kind .word false)
  | 'W' => some (.kind .word true)
  | _ => none

/-- The characters that have a letter of their own. -/
def controlEscape? : Char → Option Nat
  | 'a' => some 7
  | 'b' => some 8
  | 'f' => some 12
  | 'n' => some 10
  | 'r' => some 13
  | 't' => some 9
  | 'v' => some 11
  | '\\' => some 92
  | _ => none

/-- The empty stretches that have an escape. -/
def edgeEscape? (ascii : Bool) : Char → Option Pattern
  | 'A' => some (.start false)
  | 'Z' => some .textEnd
  | 'b' => some (.wordEdge false ascii)
  | 'B' => some (.wordEdge true ascii)
  | _ => none

/-! ## Characters by number or name -/

/-- Whether a character is an octal digit. -/
def isOctal (c : Char) : Bool := '0' ≤ c && c ≤ '7'

/-- The number denoted by octal digits. -/
def octalNumber (cs : List Char) : Nat := cs.foldl (fun n c => 8 * n + (c.toNat - 48)) 0

/-- Whether a character is an ASCII letter. -/
def isAsciiLetter (c : Char) : Bool := ('a' ≤ c && c ≤ 'z') || ('A' ≤ c && c ≤ 'Z')

/-- Stops at the escape of the given characters, which has just been taken. -/
def badEscape {α : Type} (problem : String) (written : List Char) (rest : String := "") :
    Scanner α :=
  stop (problem ++ " " ++ .ofList ('\\' :: written) ++ rest) (written.length + 1)

/-- The character whose number has exactly `width` hexadecimal digits, after `letter`. -/
def hexEscape (letter : Char) (width : Nat) : Scanner Nat := do
  let ds ← takeSome width fun c => (Json.hexValue? c).isSome
  if ds.length < width then badEscape "incomplete escape" (letter :: ds)
  match Json.hexNumber? ds with
  | some n => if n ≤ 0x10ffff then return n else badEscape "bad escape" (letter :: ds)
  | none => badEscape "bad escape" (letter :: ds)

/-- The character that has a name in braces. -/
def nameEscape : Scanner Nat := do
  if !(← accept '\x7b') then stop "missing \x7b"
  let name ← nameUntil '\x7d' "character name"
  match Text.characterNamed? (.ofList name) with
  | some n => return n
  | none =>
    stop ("undefined character name " ++ Text.quoted (.ofList name)) (name.length + 4)

/-- The character whose number has the given octal digits. -/
def octalEscape (ds : List Char) : Scanner Nat :=
  if 0xff < octalNumber ds then badEscape "octal escape value" ds " outside of range 0-0o377"
  else return octalNumber ds

/-- The character that `c` stands for where it is no letter with a meaning of its own. -/
def charEscape (c : Char) : Scanner Nat :=
  if c = 'x' then hexEscape c 2
  else if c = 'u' then hexEscape c 4
  else if c = 'U' then hexEscape c 8
  else if c = 'N' then nameEscape
  else if isAsciiLetter c || Json.isDigit c then badEscape "bad escape" [c]
  else return c.toNat

/-! ## Escapes -/

/-- The meaning of `c` after a backslash inside brackets. -/
def readMemberEscape (c : Char) : Scanner Member := do
  match kindEscape? c, controlEscape? c with
  | some m, _ => return m
  | none, some n => return .char n
  | none, none =>
    if isOctal c then
      let ds ← takeSome 2 isOctal
      return .char (← octalEscape (c :: ds))
    else return .char (← charEscape c)

/-- What an escape outside brackets stands for. -/
inductive Escape where
  /-- One character of a set. -/
  | member (m : Member)
  /-- An empty stretch at an edge. -/
  | edge (p : Pattern)
  /-- The stretch of a group once more. -/
  | again (p : Pattern)

/-- The meaning of a number that begins with `c`, which is not zero: a character if there are three
octal digits, and otherwise a group by a number of at most two digits. -/
def readNumberEscape (c : Char) (cases : CaseRule) : Scanner Escape := do
  let second ← takeSome 1 Json.isDigit
  let third ← if second.any isOctal && isOctal c then takeSome 1 isOctal else pure []
  if !third.isEmpty then return .member (.char (← octalEscape (c :: (second ++ third))))
  let number := Json.decimalNumber (c :: second)
  if number ≤ (← get).groups.opened then
    return .again (← referTo number (second.length + 2) cases)
  stop ("invalid group reference " ++ toString number) (second.length + 1)

/-- The meaning of `c` after a backslash outside brackets. -/
def readEscape (ascii : Bool) (cases : CaseRule) (c : Char) : Scanner Escape := do
  match kindEscape? c, edgeEscape? ascii c, controlEscape? c with
  | some m, _, _ => return .member m
  | none, some p, _ => return .edge p
  | none, none, some n => return .member (.char n)
  | none, none, none =>
    if c = '0' then return .member (.char (octalNumber (← takeSome 2 isOctal)))
    else if Json.isDigit c then readNumberEscape c cases
    else return .member (.char (← charEscape c))

end RegionLogic.Pattern
