import RegionLogic.Log
import RegionLogic.Modifier.Classification
import RegionLogic.Requirement.Branch
import RegionLogic.Requirement.Elimination

/-!
# Dominance

A branch dominates another if whatever satisfies the other satisfies it at no worse cost in state. The
test is one-sided: where it fails nothing is known.

## Main definitions

* `embeds`: a run occurs in another one, and what surrounds it is all of one kind
* `dominates`: one branch makes another redundant
* `removeRedundant`: the branches that are left of a list, and what was dropped
-/

namespace RegionLogic

/-- Whether all terms are of kind `kind`; the first that is not ends the test. -/
def allOfKind (classify : Classifier) (kind : ModifierKind) : List Name → Except Fault Bool
  | [] => .ok true
  | term :: terms => do
    if (← classify term) = kind then allOfKind classify kind terms else return false

/-- Whether `part` occurs in `run`, and all terms of `run` before and after its first occurrence are
of kind `kind`. -/
def embedsFrom (classify : Classifier) (kind : ModifierKind) (part : List Name) :
    List Name → Except Fault Bool
  | [] => .ok part.isEmpty
  | term :: terms => do
    if (term :: terms).length < part.length then return false
    else if part.isPrefixOf (term :: terms) then
      allOfKind classify kind ((term :: terms).drop part.length)
    else if (← classify term) = kind then embedsFrom classify kind part terms
    else return false

/-- Whether `part` occurs in `run`, and all other terms of `run` are of kind `kind`. A term of `part`
that `run` does not hold decides the matter before any term is classified. -/
def embeds (classify : Classifier) (kind : ModifierKind) (run part : List Name) :
    Except Fault Bool :=
  if part.all (· ∈ run) then embedsFrom classify kind part run else .ok false

/-- Whether branch `a` makes branch `b` redundant. Region requirements are compared on request. -/
def dominates (classify : Classifier) (compareRegions : Bool) (a b : Branch) :
    Except Fault Bool :=
  if ¬a.items ⊆ b.items then .ok false
  else if ¬a.locations ⊆ b.locations then .ok false
  else if compareRegions ∧ ¬a.regions ⊆ b.regions then .ok false
  else if b.modifiers.length ≤ a.modifiers.length then
    embeds classify .beneficial a.modifiers b.modifiers
  else embeds classify .detrimental b.modifiers a.modifiers

/-- The branches that are left of a list when those made redundant by another are dropped. -/
def removeRedundant (classify : Classifier) (compareRegions : Bool) (branches : List Branch) :
    Elimination Branch :=
  eliminate (dominates classify compareRegions) branches

/-- The event of dropping a branch for another one. Branches that cannot be written are not
recorded. -/
def droppedEvent? (dropped better : Branch) : Option Event := do
  let line := "Dropping " ++ (← dropped.text.toOption) ++ ", dominated by " ++ (← better.text.toOption)
  return ⟨.debug, .dominance, line⟩

/-- The events of dropping branches. -/
def droppedEvents (dropped : List (Branch × Branch)) : List Event :=
  dropped.filterMap fun d => droppedEvent? d.1 d.2

end RegionLogic
