import RegionLogic.Pattern.Basic

/-!
# Widths of patterns

A pattern that is to be matched backwards from a place needs stretches of one length only. The width of
a pattern bounds the lengths of its stretches from both sides.

## Main definitions

* `Pattern.Width`: the bounds
* `Pattern.width`: the width of a pattern
-/

namespace RegionLogic.Pattern

/-- Bounds of the lengths of stretches. -/
structure Width where
  least : Nat
  most : Nat
  deriving DecidableEq

namespace Width

/-- The length that stands for all that are too great to be told apart. -/
def limit : Nat := Nat.pow 2 64

/-- The width of stretches of one length. -/
def exactly (n : Nat) : Width := ⟨n, n⟩

/-- The width with bounds that are too great cut off. -/
def capped (w : Width) : Width := ⟨min w.least limit, min w.most limit⟩

/-- The width of one stretch after another. -/
protected def add (v w : Width) : Width := ⟨v.least + w.least, v.most + w.most⟩

/-- The width of stretches of either kind. -/
def union (v w : Width) : Width := ⟨min v.least w.least, max v.most w.most⟩

/-- The width of repeated stretches. -/
def repeated (w : Width) (least : Nat) (most : Option Nat) : Width where
  least := w.least * least
  most :=
    match most with
    | some n => w.most * n
    | none => if w.most = 0 then 0 else limit

end Width

/-- The width of a pattern, given the widths of the groups before it. -/
def width (groups : List (Nat × Width)) : Pattern → Width
  | one _ => .exactly 1
  | seq p q => ((width groups p).add (width groups q)).capped
  | alt p q => (width groups p).union (width groups q)
  | repeated p least most _ => ((width groups p).repeated least most).capped
  | group _ p => width groups p
  | atomic p => width groups p
  | reference number _ => (Entries.find? groups number).getD (.exactly 0)
  | ifGroup _ yes no => (width groups yes).union (width groups no)
  | _ => .exactly 0

end RegionLogic.Pattern
