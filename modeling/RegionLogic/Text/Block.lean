/-!
# Blocks

A container is written with one item on a line, indented deeper than the container; an empty one stays
on one line.

## Main definitions

* `Text.block`: a container of written items

## Main results

* `Text.toList_block_of_ne_nil`: the characters of a container that is not empty
-/

namespace RegionLogic.Text

/-- A run of spaces. -/
def spaces (n : Nat) : String := .ofList (List.replicate n ' ')

@[simp] theorem toList_spaces (n : Nat) : (spaces n).toList = List.replicate n ' ' :=
  String.toList_ofList

/-- The break before an item that stands `depth` containers deep, with `width` spaces for each. -/
def lineBreak (width depth : Nat) : String := "\n" ++ spaces (width * depth)

@[simp] theorem toList_lineBreak (width depth : Nat) :
    (lineBreak width depth).toList = '\n' :: List.replicate (width * depth) ' ' := by
  simp [lineBreak]

/-- A container that stands `depth` containers deep, between `first` and `last`. -/
def block (width depth : Nat) (first last : String) (items : List String) : String :=
  if items.isEmpty then first ++ last
  else
    first ++ lineBreak width (depth + 1) ++
      ("," ++ lineBreak width (depth + 1)).intercalate items ++ lineBreak width depth ++ last

@[simp] theorem block_nil (width depth : Nat) (first last : String) :
    block width depth first last [] = first ++ last := rfl

/-- The characters of a container that is not empty. -/
theorem toList_block_of_ne_nil {width depth : Nat} {first last : String} {items : List String}
    (h : items ≠ []) :
    (block width depth first last items).toList =
      first.toList ++ (lineBreak width (depth + 1)).toList ++
        (',' :: (lineBreak width (depth + 1)).toList).intercalate (items.map String.toList) ++
        (lineBreak width depth).toList ++ last.toList := by
  rw [block, if_neg (by simpa using h)]
  simp [String.toList_intercalate]

end RegionLogic.Text
