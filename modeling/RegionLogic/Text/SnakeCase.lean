import RegionLogic.Text.LowerCase

/-!
# Snake case

Field names that are written with capitals become names in small letters, with an underscore in front
of every capital but the first character.

## Main definitions

* `snakeCase`: a name in small letters
-/

namespace RegionLogic.Text

/-- Whether a character is one of the capitals `A` to `Z`. -/
def isCapital (c : Char) : Bool := 'A' ≤ c && c ≤ 'Z'

/-- The characters with an underscore in front of every capital. -/
def markCapitals (cs : List Char) : List Char :=
  cs.flatMap fun c => if isCapital c then ['_', c] else [c]

/-- A name in small letters, with an underscore in front of every capital but the first character. -/
def snakeCase (s : String) : String :=
  match s.toList with
  | [] => ""
  | c :: cs => lower (.ofList (c :: markCapitals cs))

end RegionLogic.Text
