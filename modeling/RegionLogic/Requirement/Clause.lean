import RegionLogic.Requirement.Dominance

/-!
# Clauses

A clause is one alternative of a logic object: an object that provides the state, a set of conditions
and a run of modifiers. Its terms are kept as they are written and read when they are needed.

## Main definitions

* `Clause`: the clauses
* `Clause.parentRegion`, `Clause.partition`: the region and the requirements of a clause in the graph
* `Clause.referencedNames`, `Clause.mentions`, `Clause.isSelfReferential`: the names in a clause
* `Clause.substitute`: a clause with the provider replaced by one of its clauses
* `Clause.isSameOrBetter`: one clause makes another redundant
* `Clause.read`: the clause that a JSON value gives
-/

namespace RegionLogic

/-- The region in which everything starts. -/
def startRegion : Name := "Menu"

/-- One alternative of a logic object. -/
structure Clause where
  /-- The written token of the object that provides the state; without one the clause starts from
  the start region. -/
  provider : Option Name := none
  /-- The terms that all have to hold. -/
  conditions : NameSet := ∅
  /-- The modifiers, in the order in which they are applied. -/
  modifiers : List Name := []
  deriving DecidableEq, Inhabited

/-- The conditions of a clause by the kind of thing that they require. -/
structure Partition where
  /-- Required items and other plain terms. -/
  items : NameSet
  locations : NameSet
  regions : NameSet
  deriving DecidableEq

/-- The partition of no conditions. -/
def Partition.empty : Partition := ⟨∅, ∅, ∅⟩

/-- The partition with the requirement of one more condition. A reference requires a location, a
projection the region or location that it projects, and any other token an item. -/
def Partition.require (p : Partition) : Token → Partition
  | .reference target => { p with locations := insert (.text target) p.locations }
  | .projected (.reference target) => { p with locations := insert (.text target) p.locations }
  | .projected inner => { p with regions := insert (.text inner.write) p.regions }
  | token => { p with items := insert (.text token.write) p.items }

/-- The names of objects that a condition mentions. -/
def Token.names : Token → List Name
  | .reference target => [.text target]
  | .projected inner => inner.names
  | .simple name => [.text name]
  | _ => []

namespace Clause

/-- All terms: the provider, the conditions in increasing order, the modifiers. -/
def terms (c : Clause) : Except Fault (List Name) := do
  return c.provider.toList ++ (← c.conditions.inOrder) ++ c.modifiers

/-- The written form; all terms have to be texts. -/
def text (c : Clause) : Except Fault String := do
  return "(" ++ (← joinNames " + " (← c.terms)) ++ ")"

/-- The clause as a JSON value. -/
def toJson (c : Clause) : Except Fault Json := do
  return .obj [("StateProvider", c.provider.elim .null (·.toJson)),
    ("Conditions", Branch.namesJson (← c.conditions.inOrder)),
    ("StateModifiers", Branch.namesJson c.modifiers)]

/-! ## The clause in the graph -/

/-- The region that a provider stands for: a simple term or a reference. -/
def providerRegion (provider : Name) : Except Fault Name := do
  match ← Token.ofName provider with
  | .simple name => return name
  | .reference target => return target
  | token => throw (.term (.notProvider token.shape provider.display))

/-- The region that provides the state of the clause. -/
def parentRegion (c : Clause) : Except Fault Name :=
  match c.provider with
  | none => .ok startRegion
  | some provider => providerRegion provider

/-- The requirements of the conditions. -/
def partition (c : Clause) : Except Fault Partition :=
  c.conditions.toList.foldlM (fun p term => return p.require (← Token.ofName term)) .empty

/-! ## The names in a clause -/

/-- The names of the objects that provide the state or occur in the conditions. -/
def referencedNames (c : Clause) : Except Fault NameSet := do
  let provider ← c.provider.elim (.ok []) fun p => return [← providerRegion p]
  let conditions ← c.conditions.toList.mapM fun term => return (← Token.ofName term).names
  return .ofList (provider ++ conditions.flatten)

/-- Whether a condition mentions `name`. -/
def mentions (c : Clause) (name : Name) : Except Fault Bool :=
  c.conditions.toList.anyM fun term => return name ∈ (← Token.ofName term).names

/-- Whether the clause of the object `name` draws its state from that object. An object cannot be a
condition of itself. -/
def isSelfReferential (c : Clause) (name : Name) : Except Fault Bool := do
  c.conditions.toList.forM fun term => do
    let token ← Token.ofName term
    match token with
    | .comparison left _ right =>
      if name = .text left ∨ name = .text right then throw (.comparesItself name (← c.text))
    | _ => pure ()
    if name ∈ token.names then throw (.requiresItself name (← c.text))
  match c.provider with
  | none => return false
  | some provider => return (← providerRegion provider) = name

/-! ## Substitution and comparison -/

/-- The clause with its provider replaced by the clause `other` of that provider, which happens
first. -/
def substitute (c other : Clause) : Clause where
  provider := other.provider
  conditions := other.conditions ∪ c.conditions
  modifiers := other.modifiers ++ c.modifiers

/-- Whether `a` gives at least as good a state as `b` under no more conditions. Both have the same
provider, the shorter run of modifiers begins the longer one, and what is left of `a` can only help
or what is left of `b` can only hurt. -/
def isSameOrBetter (classify : Classifier) (a b : Clause) : Except Fault Bool :=
  let shared := min a.modifiers.length b.modifiers.length
  if a.provider ≠ b.provider then .ok false
  else if ¬a.conditions ⊆ b.conditions then .ok false
  else if a.modifiers.take shared ≠ b.modifiers.take shared then .ok false
  else do
    if ← allOfKind classify .beneficial (a.modifiers.drop shared) then
      allOfKind classify .detrimental (b.modifiers.drop shared)
    else return false

/-- The clauses that are left when those for which another is the same or better are dropped. A
fault of the classifier is a fault of the whole. -/
def reduceAll (classify : Classifier) (clauses : List Clause) : Except Fault (List Clause) :=
  let e := eliminate (isSameOrBetter classify) clauses
  match e.fault with
  | some fault => .error fault
  | none => .ok e.kept

/-! ## Reading -/

/-- The clause that a value gives, with all its terms checked: the provider, the conditions in
increasing order, the modifiers. -/
def read (v : Json) : Except Fault Clause := do
  let provider ← v.fieldOr "StateProvider" .null
  let conditions ← (← v.fieldOr "Conditions" (.arr [])).nameSet
  let modifiers ← (← v.fieldOr "StateModifiers" (.arr [])).items
  let provider? :=
    match provider with
    | .null => none
    | p => some p
  let terms := provider?.toList ++ (← conditions.inOrder).map (·.toJson) ++ modifiers
  terms.forM fun term => do let _ ← Token.ofJson term
  return {
    provider := ← provider?.mapM Json.name
    conditions
    modifiers := ← modifiers.mapM Json.name }

/-- The clause that a value gives, its terms taken as they are. -/
def readUnchecked (v : Json) : Except Fault Clause := do
  let provider ← v.fieldOr "StateProvider" .null
  let conditions ← (← v.fieldOr "Conditions" (.arr [])).nameSet
  let modifiers ← (← v.fieldOr "StateModifiers" (.arr [])).nameList
  match provider with
  | .null => return { provider := none, conditions, modifiers }
  | p => return { provider := some (← p.name), conditions, modifiers }

end Clause

end RegionLogic
