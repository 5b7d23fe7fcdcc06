import RegionLogic.Number.Binary64

/-!
# Shortest decimal numerals

A finite number is written with the fewest significant digits that read back as the same number; of
two such numerals the nearer is taken, of two at the same distance the one with an even last digit.
The numeral is positional if its decimal exponent is at least -4 and below 16, and keeps a fraction
of at least one digit; otherwise it has an exponent of a sign and at least two digits.

## Main definitions

* `Binary64.shortestDigits`: the digits and the exponent of the numeral
* `Binary64.numeral`: the written numeral
-/

namespace RegionLogic.Binary64

/-- A nonnegative quotient of natural numbers. -/
structure Ratio where
  num : Nat
  den : Nat

/-- The ratio `n * b ^ e`. -/
def Ratio.scaled (n b : Nat) (e : Int) : Ratio :=
  if 0 ≤ e then ⟨n * b.pow e.toNat, 1⟩ else ⟨n, b.pow (-e).toNat⟩

/-- Whether one ratio is below another. -/
def Ratio.blt (x y : Ratio) : Bool := x.num * y.den < y.num * x.den

/-- The distance of two ratios. -/
def Ratio.dist (x y : Ratio) : Ratio :=
  ⟨(x.num * y.den - y.num * x.den) + (y.num * x.den - x.num * y.den), x.den * y.den⟩

/-- The exponent of the leading decimal digit of a positive ratio. -/
def Ratio.log10 (x : Ratio) : Int :=
  let guess : Int := ((Nat.toDigits 10 x.num).length : Int) - (Nat.toDigits 10 x.den).length
  if x.blt (.scaled 1 10 guess) then guess - 1 else guess

/-- The numbers that are rounded to `m * 2 ^ q` lie between two bounds, which belong to them if `m`
is even. -/
structure Interval where
  low : Ratio
  high : Ratio
  /-- Whether the bounds belong to the interval. -/
  closed : Bool

/-- Whether a ratio lies in the interval. -/
def Interval.holds (i : Interval) (x : Ratio) : Bool :=
  if i.closed then !x.blt i.low && !i.high.blt x else i.low.blt x && x.blt i.high

/-- The interval of the numbers that are rounded to `m * 2 ^ q`. Below a power of two the
neighbour is only half as far away. -/
def roundingInterval (m : Nat) (q : Int) : Interval where
  low :=
    if m = Nat.pow 2 52 ∧ minExponent < q then .scaled (4 * m - 1) 2 (q - 2)
    else .scaled (2 * m - 1) 2 (q - 1)
  high := .scaled (2 * m + 1) 2 (q - 1)
  closed := m % 2 = 0

/-- The better of the two neighbours of `x` on the grid of multiples of `10 ^ k` that lie in the
interval. -/
def gridPoint? (i : Interval) (x : Ratio) (k : Int) : Option Nat :=
  let below :=
    if 0 ≤ k then x.num / (x.den * Nat.pow 10 k.toNat) else x.num * Nat.pow 10 (-k).toNat / x.den
  let lower := Ratio.scaled below 10 k
  let upper := Ratio.scaled (below + 1) 10 k
  match i.holds lower, i.holds upper with
  | false, false => none
  | true, false => some below
  | false, true => some (below + 1)
  | true, true =>
    let toLower := x.dist lower
    let toUpper := x.dist upper
    if toLower.blt toUpper then some below
    else if toUpper.blt toLower then some (below + 1)
    else if below % 2 = 0 then some below else some (below + 1)

/-- The digits, as a number, and the exponent of the shortest numeral of `m * 2 ^ q`. Seventeen
digits always suffice. -/
def shortestDigits (m : Nat) (q : Int) : Nat × Int :=
  let x := Ratio.scaled m 2 q
  let i := roundingInterval m q
  let lead := x.log10
  match (List.range 17).findSome? fun (n : Nat) => (gridPoint? i x (lead - n)).map (·, lead - n) with
  | some result => result
  | none => (m, 0)

/-- A digit string without the zeros at its end. -/
def dropTrailingZeros (ds : List Char) : List Char :=
  (ds.reverse.dropWhile (· = '0')).reverse

/-- The written form of the digits `ds`, whose decimal point stands after `point` of them. -/
def layout (ds : List Char) (point : Int) : List Char :=
  if -4 < point ∧ point ≤ 16 then
    if point ≤ 0 then '0' :: '.' :: List.replicate (-point).toNat '0' ++ ds
    else
      let whole := ds.take point.toNat
      let fraction := ds.drop point.toNat
      whole ++ List.replicate (point.toNat - whole.length) '0' ++ '.' ::
        (if fraction.isEmpty then ['0'] else fraction)
  else
    let exponent := point - 1
    let magnitude := Nat.toDigits 10 exponent.natAbs
    ds.take 1 ++ (if ds.length ≤ 1 then [] else '.' :: ds.drop 1) ++
      ['e', if exponent < 0 then '-' else '+'] ++
      List.replicate (2 - magnitude.length) '0' ++ magnitude

/-- The numeral of a number; the special numbers are written `nan` and `inf`. -/
def numeral : Binary64 → String
  | nan => "nan"
  | infinity negative => if negative then "-inf" else "inf"
  | finite negative m q =>
    let text :=
      if m = 0 then ['0', '.', '0']
      else
        let (n, e) := shortestDigits m q
        let all := Nat.toDigits 10 n
        layout (dropTrailingZeros all) (all.length + e)
    .ofList (if negative then '-' :: text else text)

end RegionLogic.Binary64
