import RegionLogic.Text.Blank
import RegionLogic.Text.Digit

/-!
# Integers in settings

An integer is written as an optional sign and decimal digits of any script, with single underscores
allowed between digits and blanks around the whole.

## Main definitions

* `readInteger`: the integer that a text denotes
-/

namespace RegionLogic.Text

/-- The blanks that may surround an integer: all but the information separators. -/
def isIntegerBlank (c : Char) : Bool :=
  isBlank c && !(0x1c ≤ c.toNat && c.toNat ≤ 0x1f)

/-- The number denoted by `value` followed by further digits. -/
def readDigitsAfter (value : Nat) : List Char → Option Nat
  | [] => some value
  | '_' :: c :: cs => do readDigitsAfter (10 * value + (← digitValue? c)) cs
  | c :: cs => do readDigitsAfter (10 * value + (← digitValue? c)) cs

/-- The number denoted by a run of digits. -/
def readDigits? : List Char → Option Nat
  | [] => none
  | c :: cs => do readDigitsAfter (← digitValue? c) cs

/-- The integer denoted by the characters of a text without blanks around it. -/
def readSigned? : List Char → Option Int
  | '-' :: cs => (readDigits? cs).map fun n => -(n : Int)
  | '+' :: cs => (readDigits? cs).map Int.ofNat
  | cs => (readDigits? cs).map Int.ofNat

/-- The number of digits with which the numeral at the head of a text begins. -/
def leadingDigits (cs : List Char) : Nat :=
  let unsigned :=
    match cs with
    | '-' :: cs => cs
    | '+' :: cs => cs
    | cs => cs
  (unsigned.takeWhile fun c => (digitValue? c).isSome || c = '_').countP (· ≠ '_')

/-- The greatest number of digits of an integer. -/
def maxDigits : Nat := 4300

/-- Why a text denotes no integer. -/
inductive NoInteger where
  /-- It is no numeral. -/
  | malformed
  /-- It begins with more digits than an integer may have. -/
  | tooLong (digits : Nat)
  deriving DecidableEq

/-- The integer that a text denotes. -/
def readInteger (s : String) : Except NoInteger Int :=
  let cs := ((s.toList.dropWhile isIntegerBlank).reverse.dropWhile isIntegerBlank).reverse
  if maxDigits < leadingDigits cs then .error (.tooLong (leadingDigits cs))
  else
    match readSigned? cs with
    | some n => .ok n
    | none => .error .malformed

end RegionLogic.Text
