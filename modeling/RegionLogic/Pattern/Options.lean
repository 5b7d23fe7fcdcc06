import RegionLogic.Pattern.Scan

/-!
# Options of patterns

A group can turn options on and off for what is inside it, by letters between the question mark and a
colon; those after a minus sign are turned off.

## Main definitions

* `Pattern.Flag`: the options that have a letter
* `Pattern.Options`: the options in force
* `Pattern.readScope`: the options of a group
-/

namespace RegionLogic.Pattern

/-- The options that have a letter. -/
inductive Flag where
  /-- Case does not matter. -/
  | ignoreCase
  /-- Characters are told by the locale, which is not for texts. -/
  | locale
  /-- Every line has a start and an end. -/
  | eachLine
  /-- The dot stands for the newline too. -/
  | anyChar
  /-- Blanks and comments are left out. -/
  | spaced
  /-- Only ASCII characters are digits, word characters and blanks. -/
  | ascii
  /-- The pattern is a template, which goes for the whole pattern only. -/
  | template
  /-- Characters of any script can be digits, word characters and blanks. -/
  | unicode
  deriving DecidableEq

namespace Flag

/-- The option that a token stands for. -/
def ofToken? : List Char → Option Flag
  | ['i'] => some ignoreCase
  | ['L'] => some locale
  | ['m'] => some eachLine
  | ['s'] => some anyChar
  | ['x'] => some spaced
  | ['a'] => some ascii
  | ['t'] => some template
  | ['u'] => some unicode
  | _ => none

/-- Whether an option tells which characters there are; only one such option can be in force. -/
def isRepertoire (f : Flag) : Bool := f ∈ [locale, ascii, unicode]

end Flag

/-- The options in force. -/
structure Options where
  /-- Whether case does not matter. -/
  ignoreCase : Bool := false
  /-- Whether every line has a start and an end. -/
  eachLine : Bool := false
  /-- Whether the dot stands for the newline too. -/
  anyChar : Bool := false
  /-- Whether blanks and comments are left out. -/
  spaced : Bool := false
  /-- Whether only ASCII characters are digits, word characters and blanks. -/
  ascii : Bool := false
  deriving DecidableEq

/-- Where case matters under the options. -/
def Options.cases (o : Options) : CaseRule :=
  if !o.ignoreCase then .strict else if o.ascii then .asciiBlind else .blind

/-- The options with one of them turned on or off. -/
def Options.turn (on : Bool) (o : Options) : Flag → Options
  | .ignoreCase => { o with ignoreCase := on }
  | .eachLine => { o with eachLine := on }
  | .anyChar => { o with anyChar := on }
  | .spaced => { o with spaced := on }
  | .ascii => { o with ascii := on }
  | .unicode => { o with ascii := !on }
  | .locale => o
  | .template => o

/-- Whether a token is a letter. -/
def isLetterToken : List Char → Bool
  | [c] => Text.isLetter c
  | _ => false

/-- The option of a token that has just been taken; `missing` is the problem with one that is no
letter. -/
def flagOf (token : List Char) (missing : String) : Scanner Flag :=
  match Flag.ofToken? token with
  | some f => return f
  | none => stop (if isLetterToken token then "unknown flag" else missing) token.length

/-- The options to be turned on, from `f` on and after those in `seen`, and the token behind them. The
fuel bounds the number of tokens. -/
def readFlagsOn : Nat → List Flag → Flag → Scanner (List Flag × List Char)
  | 0, _, _ => stop "missing -, : or )"
  | fuel + 1, seen, f => do
    if f = .locale then stop "bad inline flags: cannot use 'L' flag with a str pattern"
    if f.isRepertoire && seen.any fun g => g.isRepertoire && g ≠ f then
      stop "bad inline flags: flags 'a', 'u' and 'L' are incompatible"
    let token ← next
    if token ∈ [[')'], ['-'], [':']] then return (f :: seen, token)
    readFlagsOn fuel (f :: seen) (← flagOf token "missing -, : or )")

/-- The options to be turned off, after those in `seen`, up to the colon; there is at least one. The
fuel bounds the number of tokens. -/
def readFlagsOff : Nat → List Flag → Scanner (List Flag)
  | 0, _ => stop "missing :"
  | fuel + 1, seen => do
    let token ← next
    if !seen.isEmpty && token = [':'] then return seen
    let f ← flagOf token (if seen.isEmpty then "missing flag" else "missing :")
    if f.isRepertoire then stop "bad inline flags: cannot turn off flags 'a', 'u' and 'L'"
    readFlagsOff fuel (f :: seen)

/-- The options in force inside a group that was opened when `opened` characters were left, from the
first token after the question mark. Options without a colon would go for the whole pattern and can
stand only in front of it, where the pattern of a name has its anchor. -/
def readScope (o : Options) (opened : Nat) (token : List Char) : Scanner Options := do
  let fuel := (← left) + 1
  let (on, close) ←
    if token = ['-'] then pure ([], token)
    else readFlagsOn fuel [] (← flagOf token "missing -, : or )")
  if close = [')'] then
    throw (.problem "global flags not at the start of the expression" opened)
  if .template ∈ on then stop "bad inline flags: cannot turn on global flag" 1
  let off ← if close = ['-'] then readFlagsOff fuel [] else pure []
  if .template ∈ off then stop "bad inline flags: cannot turn off global flag" 1
  if on.any (· ∈ off) then stop "bad inline flags: flag turned on and off" 1
  return off.foldl (Options.turn false) (on.foldl (Options.turn true) o)

end RegionLogic.Pattern
