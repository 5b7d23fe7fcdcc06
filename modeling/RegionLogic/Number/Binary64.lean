/-!
# Binary floating-point numbers

The numbers with a 53-bit significand of the common binary format, held exactly: a finite number is
a sign, a significand `m` and an exponent `q`, and stands for `m * 2 ^ q`. A decimal numeral is
rounded to the nearest of them, a tie to the even significand.

## Main definitions

* `Binary64`: the numbers
* `Binary64.ofDecimal`: the number nearest to a decimal numeral
* `Binary64.truncate?`: the integer part of a finite number
-/

namespace RegionLogic

/-- A binary floating-point number. -/
inductive Binary64 where
  | nan
  | infinity (negative : Bool)
  /-- The number `m * 2 ^ q`, negated if `negative`. -/
  | finite (negative : Bool) (m : Nat) (q : Int)
  deriving DecidableEq

namespace Binary64

/-- The least exponent of a finite number. -/
def minExponent : Int := -1074

/-- The greatest exponent of a finite number. -/
def maxExponent : Int := 971

/-- The quotient of two numbers rounded to the nearest integer, a tie to the even one. -/
def roundDiv (num den : Nat) : Nat :=
  let quotient := num / den
  let rest := 2 * (num % den)
  if rest < den then quotient
  else if den < rest then quotient + 1
  else if quotient % 2 = 0 then quotient else quotient + 1

/-- The quotient `num / den` of positive numbers lies between `2 ^ k` and `2 ^ (k + 1)`, the first
included. -/
def log2Ratio (num den : Nat) : Int :=
  let guess : Int := (num.log2 : Int) - (den.log2 : Int)
  let reached := if 0 ≤ guess then den * Nat.pow 2 guess.toNat ≤ num else den ≤ num * Nat.pow 2 (-guess).toNat
  if reached then guess else guess - 1

/-- The number nearest to the positive quotient `num / den`. -/
def ofRatio (negative : Bool) (num den : Nat) : Binary64 :=
  let q := max (log2Ratio num den - 52) minExponent
  let m := if 0 ≤ q then roundDiv num (den * Nat.pow 2 q.toNat)
    else roundDiv (num * Nat.pow 2 (-q).toNat) den
  let (m, q) := if m = Nat.pow 2 53 then (Nat.pow 2 52, q + 1) else (m, q)
  if maxExponent < q then .infinity negative else .finite negative m q

/-- The number nearest to `digits * 10 ^ exponent`, where `digits` has at most `width` decimal
digits. A numeral far outside the range is decided by its magnitude. -/
def ofDecimal (negative : Bool) (digits width : Nat) (exponent : Int) : Binary64 :=
  if digits = 0 then .finite negative 0 minExponent
  else if 310 < exponent then .infinity negative
  else if exponent + width < -400 then .finite negative 0 minExponent
  else if 0 ≤ exponent then ofRatio negative (digits * Nat.pow 10 exponent.toNat) 1
  else ofRatio negative digits (Nat.pow 10 (-exponent).toNat)

/-- Whether the number is zero of either sign. -/
def isZero : Binary64 → Bool
  | finite _ m _ => m == 0
  | _ => false

/-- The integer part of a finite number. -/
def truncate? : Binary64 → Option Int
  | finite negative m q =>
    let magnitude := if 0 ≤ q then m * Nat.pow 2 q.toNat else m / Nat.pow 2 (-q).toNat
    some (if negative then -(magnitude : Int) else magnitude)
  | _ => none

end Binary64

end RegionLogic
