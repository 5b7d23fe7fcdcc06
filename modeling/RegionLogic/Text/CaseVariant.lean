import RegionLogic.Text.LowerCase

/-!
# Characters that differ in case

Two characters differ in case only if they have the same small form, or small forms that are one letter
in capitals, such as the two forms of the small sigma. The variants of a character are all that differ
from it in case only; a set of characters is met up to case if it holds one of them.

## Main definitions

* `smallForm`: the small form of a character
* `caseVariants`: the variants of a character
* `asciiSmallForm`, `asciiCaseVariants`: the same among ASCII characters
-/

namespace RegionLogic.Text

/-- The small form of a character, as one character. -/
def smallForm (c : Char) : Char := (lowerChar c).headD c

/-- The small letters that are one letter in capitals, by code point. -/
def sharedCapitals : List (List Nat) :=
  [ [105, 305], [115, 383], [181, 956], [837, 953, 8126], [912, 8147], [944, 8163], [946, 976],
    [949, 1013], [952, 977], [954, 1008], [960, 982], [961, 1009], [962, 963], [966, 981],
    [1074, 7296], [1076, 7297], [1086, 7298], [1089, 7299], [1090, 7300, 7301], [1098, 7302],
    [1123, 7303], [7304, 42571], [7777, 7835], [64261, 64262]
  ]

/-- The small letters that are one letter in capitals with the given one. -/
def smallVariants (d : Char) : List Char :=
  match sharedCapitals.find? (d.toNat ∈ ·) with
  | some group => group.map Char.ofNat
  | none => [d]

/-- The character of a run that is moved to `d`, if there is one. -/
def CaseRun.source? (r : CaseRun) (d : Char) : Option Char :=
  let n := (d.toNat - r.shift : Int).toNat
  if r.covers n then some (Char.ofNat n) else none

/-- The characters that have `d` as their small form, as far as the table of case tells, and `d`. -/
def withSmallForm (d : Char) : List Char :=
  d :: ((if d = 'i' then ['\u0130'] else []) ++ caseRuns.filterMap (·.source? d))

/-- The characters that differ from `c` in case only. -/
def caseVariants (c : Char) : List Char := (smallVariants (smallForm c)).flatMap withSmallForm

/-- The small form of a character if it is an ASCII letter. -/
def asciiSmallForm (c : Char) : Char := if c.toNat < 128 then smallForm c else c

/-- The characters that differ from `c` in the case of an ASCII letter only. -/
def asciiCaseVariants (c : Char) : List Char :=
  let small := asciiSmallForm c
  if 'a' ≤ small && small ≤ 'z' then [small, Char.ofNat (small.toNat - 32)] else [c]

end RegionLogic.Text
