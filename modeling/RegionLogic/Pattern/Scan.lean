import RegionLogic.Json.Reader
import RegionLogic.Pattern.Width
import RegionLogic.Text.Identifier
import RegionLogic.Text.Quoted

/-!
# Scanning patterns

A pattern is scanned from left to right. A backslash and the character after it are one token, any other
character is a token of its own. The scanner keeps count of the groups that have been opened and closed,
since later parts of the pattern may refer to them.

## Main definitions

* `Pattern.Malformed`, `Pattern.Unreadable`: what is wrong with a pattern, and where
* `Pattern.Scan`: the state of the scanner
* `Pattern.Scanner`: readers of a part of a pattern
* `Pattern.openGroup`, `Pattern.closeGroup`, `Pattern.referTo`: the groups
-/

namespace RegionLogic.Pattern

/-! ## Faults -/

/-- What is wrong with a pattern, in words, and the number of characters before the place. -/
structure Malformed where
  problem : String
  /-- The number of characters before the place, if there is one. -/
  offset : Option Nat
  source : String
  deriving DecidableEq

/-- The message for a malformed pattern; a pattern of several lines shows line and column too. -/
def Malformed.message (m : Malformed) : String :=
  match m.offset with
  | none => m.problem
  | some offset =>
    let before := m.source.toList.take offset
    m.problem ++ " at position " ++ toString offset ++
      if '\n' ∈ m.source.toList then
        " (line " ++ toString (before.count '\n' + 1) ++ ", column " ++
          toString ((before.reverse.takeWhile (· ≠ '\n')).length + 1) ++ ")"
      else ""

/-- Why a text is no pattern. -/
inductive Unreadable where
  | malformed (cause : Malformed)
  /-- It asks for more repetitions than can be counted. -/
  | tooManyRepeats
  /-- The number of repetitions has too many digits. -/
  | tooManyDigits (count : Nat)
  deriving DecidableEq

/-- The wording of an unreadable pattern. -/
def Unreadable.message : Unreadable → String
  | malformed cause => cause.message
  | tooManyRepeats => "the repetition number is too large"
  | tooManyDigits count => (Json.Excess.digits count).message

/-- Why a scanner stops. -/
inductive Stop where
  /-- Something is wrong where `left` characters are left. -/
  | problem (text : String) (left : Nat)
  /-- More repetitions are asked for than can be counted. -/
  | tooManyRepeats
  /-- A number of repetitions has too many digits. -/
  | tooManyDigits (count : Nat)

/-! ## State -/

/-- The groups of a pattern as far as it has been scanned. -/
structure Groups where
  /-- The number of groups that have been opened. -/
  opened : Nat := 0
  /-- The groups that have a name. -/
  names : List (String × Nat) := []
  /-- The groups that have been closed, with their widths. -/
  closed : List (Nat × Width) := []
  /-- The number of groups that had been opened where the outermost pattern to be matched backwards
  begins, inside such a pattern. -/
  guard : Option Nat := none
  /-- The groups that conditions ask for by number, each with the number of characters left where it is
  first asked for. -/
  asked : List (Nat × Nat) := []
  /-- What is wrong with the widths of patterns to be matched backwards. -/
  widthProblem : Option String := none

/-- The state of the scanner. -/
structure Scan where
  /-- The characters that are left. -/
  rest : List Char
  groups : Groups := {}

/-- A reader of a part of a pattern. -/
abbrev Scanner := StateT Scan (Except Stop)

/-! ## Tokens -/

/-- The number of characters that are left. -/
def left : Scanner Nat := return (← get).rest.length

/-- Stops with a problem `back` characters before the next token. -/
def stop {α : Type} (problem : String) (back : Nat := 0) : Scanner α := do
  throw (.problem problem ((← left) + back))

/-- The next token, which stays; there is none at the end. -/
def peek : Scanner (List Char) := do
  match (← get).rest with
  | [] => return []
  | ['\\'] => throw (.problem "bad escape (end of pattern)" 1)
  | '\\' :: c :: _ => return ['\\', c]
  | c :: _ => return [c]

/-- Goes on to the given characters. A backslash at the end is seen as soon as it comes next. -/
def jump (rest : List Char) : Scanner Unit := do
  modify fun s => { s with rest := rest }
  let _ ← peek

/-- The next token, which is taken. -/
def next : Scanner (List Char) := do
  let token ← peek
  jump ((← get).rest.drop token.length)
  return token

/-- Takes the next token if it is the given character. -/
def accept (c : Char) : Scanner Bool := do
  if (← peek) = [c] then
    let _ ← next
    return true
  else return false

/-- Takes at most `n` characters that satisfy `p`. -/
def takeSome (n : Nat) (p : Char → Bool) : Scanner (List Char) := do
  let rest := (← get).rest
  let taken := (rest.take n).takeWhile p
  jump (rest.drop taken.length)
  return taken

/-- Takes the tokens up to a closing character, that one too, and says whether there is one. The fuel
bounds the number of tokens. -/
def skipPast (close : Char) : Nat → Scanner Bool
  | 0 => return false
  | fuel + 1 => do
    match ← next with
    | [] => return false
    | token => if token = [close] then return true else skipPast close fuel

/-- Takes the characters up to a closing one, which is taken too; `what` names them in messages. The
fuel bounds the number of tokens. -/
def takeUntil (close : Char) (what : String) : Nat → List Char → Scanner (List Char)
  | 0, taken => return taken
  | fuel + 1, taken => do
    match ← next with
    | [] =>
      if taken.isEmpty then stop ("missing " ++ what)
      else stop ("missing " ++ .ofList [close] ++ ", unterminated name") taken.length
    | token =>
      if token = [close] then
        if taken.isEmpty then stop ("missing " ++ what) 1 else return taken
      else takeUntil close what fuel (taken ++ token)

/-- A name up to a closing character. -/
def nameUntil (close : Char) (what : String) : Scanner (List Char) := do
  takeUntil close what ((← left) + 1) []

/-! ## Groups -/

/-- Changes the groups. -/
def changeGroups (f : Groups → Groups) : Scanner Unit :=
  modify fun s => { s with groups := f s.groups }

/-- Stops unless characters that precede the next token, closing character included, form the name of
a group. -/
def checkGroupName (name : List Char) : Scanner Unit := do
  if !Text.isIdentifier name then
    stop ("bad character in group name " ++ Text.quoted (.ofList name)) (name.length + 1)

/-- Opens a group and gives its number. -/
def openGroup (name : Option (List Char)) : Scanner Nat := do
  let groups := (← get).groups
  let number := groups.opened + 1
  match name with
  | none => changeGroups fun g => { g with opened := number }
  | some cs =>
    let name := String.ofList cs
    match Entries.find? groups.names name with
    | some earlier =>
      stop ("redefinition of group name " ++ Text.quoted name ++ " as group " ++
        toString number ++ "; was group " ++ toString earlier) (cs.length + 1)
    | none => changeGroups fun g =>
      { g with opened := number, names := Entries.set g.names name number }
  return number

/-- Closes a group. -/
def closeGroup (number : Nat) (p : Pattern) : Scanner Unit :=
  changeGroups fun g => { g with closed := Entries.set g.closed number (p.width g.closed) }

/-- Stops if a group that is referred to inside a pattern to be matched backwards is not closed or
belongs to that pattern. -/
def checkGuard (number : Nat) : Scanner Unit := do
  let groups := (← get).groups
  match groups.guard with
  | none => return
  | some opened =>
    if !Entries.has groups.closed number then stop "cannot refer to an open group"
    if opened < number then
      stop "cannot refer to group defined in the same lookbehind subpattern"

/-- A reference to a group by characters of which `back` precede the next token. -/
def referTo (number back : Nat) (cases : CaseRule) : Scanner Pattern := do
  if !Entries.has (← get).groups.closed number then stop "cannot refer to an open group" back
  checkGuard number
  return .reference number cases

/-- The number of a group of the given name. -/
def groupNamed (cs : List Char) : Scanner Nat := do
  match Entries.find? (← get).groups.names (.ofList cs) with
  | some number => return number
  | none => stop ("unknown group name " ++ Text.quoted (.ofList cs)) (cs.length + 1)

/-- A pattern to be matched backwards, read by `inner`. -/
def guarded {α : Type} (inner : Scanner α) : Scanner α := do
  let outer := (← get).groups.guard
  if outer.isNone then changeGroups fun g => { g with guard := some g.opened }
  let result ← inner
  if outer.isNone then changeGroups fun g => { g with guard := none }
  return result

/-- The width of a pattern to be matched backwards, which is read by `inner`. A problem with its width
comes after those found before it and before those inside it. -/
def fixedWidth (inner : Scanner Pattern) : Scanner (Nat × Pattern) := do
  let before := (← get).groups.widthProblem
  let p ← guarded inner
  let w := p.width (← get).groups.closed
  let problem :=
    if Nat.pow 2 32 ≤ w.least then some "looks too much behind"
    else if w.least ≠ w.most then some "look-behind requires fixed-width pattern"
    else none
  changeGroups fun g => { g with widthProblem := before <|> problem <|> g.widthProblem }
  return (w.least, p)

end RegionLogic.Pattern
