import RegionLogic.Fault
import RegionLogic.NameSet

/-!
# Listing names

A set of names is listed in increasing order, provided that its members have a common order: texts go
by their characters, numbers by their size, where truth counts as one. Names that are written one after
the other with separators between them have to be texts.

## Main definitions

* `NameSet.inOrder`: the members of a set in increasing order
* `NameSet.ofValues`: the set of the members of a list in which numbers of the same size are one
* `joinNames`: names with separators between them

## Main results

* `joinNames_text`: texts can always be joined
-/

namespace RegionLogic

/-- The size of a number, as a numerator and the exponent of a power of two below it. An infinity
is beyond every finite floating-point number. -/
def Scalar.size? : Scalar → Option (Int × Nat)
  | null => none
  | bool b => some (truthCode b, 0)
  | int n => some (n, 0)
  | float .nan => none
  | float (.infinity negative) => some (if negative then -Int.pow 2 1100 else Int.pow 2 1100, 0)
  | float (.finite negative m q) =>
    let n : Int := if negative then -m else m
    some (if 0 ≤ q then (n * Int.pow 2 q.toNat, 0) else (n, (-q).toNat))

/-- The size of a name that is a number. -/
def Name.size? : Name → Option (Int × Nat)
  | text _ => none
  | odd v => v.size?

/-- Whether one size is at most another. -/
def sizeLe (a b : Int × Nat) : Bool := a.1 * Int.pow 2 b.2 ≤ b.1 * Int.pow 2 a.2

/-- Whether two names are equal or numbers of the same size. -/
def Name.isSame (a b : Name) : Bool :=
  a = b ||
    match a.size?, b.size? with
    | some x, some y => sizeLe x y && sizeLe y x
    | _, _ => false

/-- The members of a list that are not the same as an earlier one. -/
def firstOccurrences (l : List Name) : List Name :=
  l.foldl (fun seen a => if seen.any (·.isSame a) then seen else seen ++ [a]) []

namespace NameSet

/-- The set of the members of a list; of numbers of the same size the first one counts. -/
def ofValues (l : List Name) : NameSet :=
  if l.all (·.text?.isSome) then ofList l else ofList (firstOccurrences l)

/-- The members in increasing order. Texts and numbers have no common order, and the absent value has
none with anything else. -/
def inOrder (s : NameSet) : Except Fault (List Name) :=
  match s.toList with
  | [] => .ok []
  | [a] => .ok [a]
  | a :: rest =>
    if (a :: rest).all (·.text?.isSome) then .ok (a :: rest)
    else if (a :: rest).all (·.size?.isSome) then
      .ok ((a :: rest).mergeSort fun x y => sizeLe (x.size?.getD (0, 0)) (y.size?.getD (0, 0)))
    else .error (.shape (.unordered ((rest.getLast?.getD a).shape) a.shape))

end NameSet

/-- The texts of names, the first of which has the given number. -/
def textsFrom : Nat → List Name → Except Fault (List String)
  | _, [] => .ok []
  | i, .text s :: rest => (s :: ·) <$> textsFrom (i + 1) rest
  | i, .odd v :: _ => .error (.shape (.itemNotText i v.toJson.shape))

/-- Names with separators between them. -/
def joinNames (separator : String) (l : List Name) : Except Fault String :=
  separator.intercalate <$> textsFrom 0 l

theorem textsFrom_text (i : Nat) (l : List String) : textsFrom i (l.map .text) = .ok l := by
  induction l generalizing i with
  | nil => rfl
  | cons s l ih =>
    simp only [List.map_cons, textsFrom, ih]
    rfl

/-- Texts can always be joined. -/
theorem joinNames_text (separator : String) (l : List String) :
    joinNames separator (l.map .text) = .ok (separator.intercalate l) := by
  simp only [joinNames, textsFrom_text]
  rfl

end RegionLogic
