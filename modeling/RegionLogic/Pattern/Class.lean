import RegionLogic.Text.Blank
import RegionLogic.Text.CaseVariant
import RegionLogic.Text.Digit
import RegionLogic.Text.Word

/-!
# Character classes

The sets of characters that a pattern can ask for at one place of a text.

## Main definitions

* `CharKind`: digits, word characters and blanks
* `CaseRule`: where case matters
* `CharClass`: a set of characters, by its items
* `CharClass.holds`: whether a character belongs to a class
-/

namespace RegionLogic

/-- The sets of characters that have an escape of their own. -/
inductive CharKind where
  | digit
  | word
  | blank
  deriving DecidableEq

/-- Whether a character is of a kind; on request only ASCII characters are. -/
def CharKind.holds (ascii : Bool) (c : Char) (k : CharKind) : Bool :=
  (!ascii || c.toNat < 128) &&
    match k with
    | digit => Text.isDecimalDigit c
    | word => Text.isWordChar c
    | blank => Text.isBlank c && (!ascii || c.toNat < 14 || c = ' ')

/-- One item of a character class. -/
inductive ClassItem where
  /-- The characters from `low` to `high`, by code point. -/
  | range (low high : Nat)
  /-- The characters of a kind, or all others if negated. -/
  | kind (k : CharKind) (ascii negated : Bool)
  deriving DecidableEq

/-- Whether an item holds a character of which `variants` are the same up to case; case makes no
difference to the kind of a character. -/
def ClassItem.holds (variants : List Char) (c : Char) : ClassItem → Bool
  | range low high => variants.any fun d => low ≤ d.toNat && d.toNat ≤ high
  | kind k ascii negated => k.holds ascii c != negated

/-- Where case matters. -/
inductive CaseRule where
  | strict
  /-- Everywhere but in ASCII letters. -/
  | asciiBlind
  | blind
  deriving DecidableEq

namespace CaseRule

/-- The characters that are the same as a given one up to case. -/
def variants : CaseRule → Char → List Char
  | strict, c => [c]
  | asciiBlind, c => Text.asciiCaseVariants c
  | blind, c => Text.caseVariants c

/-- The form in which characters are compared with those of an earlier stretch. -/
def fold : CaseRule → Char → Char
  | strict, c => c
  | asciiBlind, c => Text.asciiSmallForm c
  | blind, c => Text.smallForm c

end CaseRule

/-- A set of characters: those that some item holds, or all others if negated. -/
structure CharClass where
  /-- Whether the class holds the characters of no item. -/
  negated : Bool := false
  cases : CaseRule := .strict
  items : List ClassItem
  deriving DecidableEq

namespace CharClass

/-- Whether a character belongs to a class. -/
def holds (k : CharClass) (c : Char) : Bool :=
  let variants := k.cases.variants c
  k.items.any (·.holds variants c) != k.negated

/-- The class of all characters but the newline. -/
def anyInLine : CharClass := { negated := true, items := [.range 10 10] }

/-- The class of all characters. -/
def any : CharClass := { negated := true, items := [] }

end CharClass

end RegionLogic
