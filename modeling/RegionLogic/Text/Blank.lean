import RegionLogic.Text.CodeRanges

/-!
# Blank characters

The characters that separate words: the Unicode white space together with the four information
separators U+001C to U+001F. A term of a clause holds none of them, and settings are stripped of
them at both ends.

## Main definitions

* `isBlank`: the property
* `strip`: a text without the blanks at its ends
-/

namespace RegionLogic.Text

/-- The code points of the blank characters. -/
def blanks : CodeRanges where
  bounds :=
  [ (9, 13), (28, 32), (133, 133), (160, 160), (5760, 5760), (8192, 8202), (8232, 8233),
    (8239, 8239), (8287, 8287), (12288, 12288)
  ]

/-- Whether a character is blank. -/
def isBlank (c : Char) : Bool := blanks.covers c.toNat

/-- The characters of `cs` without the blanks at both ends. -/
def stripChars (cs : List Char) : List Char :=
  ((cs.dropWhile isBlank).reverse.dropWhile isBlank).reverse

/-- A text without the blanks at both ends. -/
def strip (s : String) : String := .ofList (stripChars s.toList)

end RegionLogic.Text
