import RegionLogic.Listing

/-!
# Requirement branches

A branch is one way to satisfy a piece of logic: items, locations and regions that are all required,
and a run of modifiers that is applied in order. Alternatives are lists of branches.

## Main definitions

* `Branch`: the branches, with `+` for one after the other
* `Branch.isEmpty`: a branch that requires nothing and modifies nothing
* `distribute`: the alternatives of one piece of logic after those of another

## Main results

* `Branch.add_assoc`, `Branch.empty_add`, `Branch.add_empty`: branches are a monoid
* `distribute_nil`, `nil_distribute`: an empty list of alternatives carries no requirements
* `mem_distribute`: the alternatives of two pieces of logic
-/

namespace RegionLogic

/-- One way to satisfy a piece of logic. -/
structure Branch where
  /-- Items, or other plain terms, that have to be held. -/
  items : NameSet := ∅
  /-- Logic objects that have to be reachable. -/
  locations : NameSet := ∅
  /-- Regions whose state has to be reachable. -/
  regions : NameSet := ∅
  /-- The modifiers, in the order in which they are applied. -/
  modifiers : List Name := []
  deriving DecidableEq, Inhabited

namespace Branch

@[ext] theorem ext {a b : Branch} (hi : a.items = b.items) (hl : a.locations = b.locations)
    (hr : a.regions = b.regions) (hm : a.modifiers = b.modifiers) : a = b := by
  cases a; cases b; simp_all

/-- The branch that requires nothing and modifies nothing. -/
def empty : Branch := {}

/-- Whether the branch requires nothing and modifies nothing. -/
def isEmpty (b : Branch) : Bool :=
  b.items.isEmpty && b.locations.isEmpty && b.regions.isEmpty && b.modifiers.isEmpty

/-- The branch that satisfies `a` first and then `b`. -/
protected def add (a b : Branch) : Branch where
  items := a.items ∪ b.items
  locations := a.locations ∪ b.locations
  regions := a.regions ∪ b.regions
  modifiers := a.modifiers ++ b.modifiers

instance : Add Branch := ⟨Branch.add⟩

@[simp] theorem items_add (a b : Branch) : (a + b).items = a.items ∪ b.items := rfl

@[simp] theorem locations_add (a b : Branch) : (a + b).locations = a.locations ∪ b.locations := rfl

@[simp] theorem regions_add (a b : Branch) : (a + b).regions = a.regions ∪ b.regions := rfl

@[simp] theorem modifiers_add (a b : Branch) : (a + b).modifiers = a.modifiers ++ b.modifiers := rfl

theorem add_assoc (a b c : Branch) : a + b + c = a + (b + c) := by
  apply Branch.ext
  · ext x; simp [or_assoc]
  · ext x; simp [or_assoc]
  · ext x; simp [or_assoc]
  · simp

@[simp] theorem empty_add (b : Branch) : empty + b = b := by
  apply Branch.ext
  · ext x; simp [empty]
  · ext x; simp [empty]
  · ext x; simp [empty]
  · simp [empty]

@[simp] theorem add_empty (b : Branch) : b + empty = b := by
  apply Branch.ext
  · ext x; simp [empty]
  · ext x; simp [empty]
  · ext x; simp [empty]
  · simp [empty]

theorem isEmpty_iff {b : Branch} : b.isEmpty = true ↔ b = empty := by
  have h (s : NameSet) : s.isEmpty = true ↔ s = ∅ := by
    refine ⟨fun hs => NameSet.ext fun a => ?_, fun hs => hs ▸ rfl⟩
    rw [← NameSet.mem_toList, List.isEmpty_iff.1 hs]
    simp
  simp only [isEmpty, Bool.and_eq_true, h, List.isEmpty_iff]
  constructor
  · rintro ⟨⟨⟨hi, hl⟩, hr⟩, hm⟩
    exact Branch.ext hi hl hr hm
  · rintro rfl
    exact ⟨⟨⟨rfl, rfl⟩, rfl⟩, rfl⟩

/-- The written form: the requirements in increasing order, then the modifiers. Items and modifiers
have to be texts. -/
def text (b : Branch) : Except Fault String := do
  let locations := (← b.locations.inOrder).map fun a => Name.text ("*" ++ a.spelling)
  let regions := (← b.regions.inOrder).map fun a => Name.text (a.spelling ++ "/")
  let parts := (← b.items.inOrder) ++ locations ++ regions ++ b.modifiers
  if parts.isEmpty then return "(TRUE)" else return "(" ++ (← joinNames " + " parts) ++ ")"

/-- A list of names as a JSON value. -/
def namesJson (l : List Name) : Json := .arr (l.map (·.toJson))

/-- The branch as a JSON value, its requirement sets in increasing order. -/
def toJson (b : Branch) : Except Fault Json := do
  return .obj [("ItemRequirements", namesJson (← b.items.inOrder)),
    ("LocationRequirements", namesJson (← b.locations.inOrder)),
    ("RegionRequirements", namesJson (← b.regions.inOrder)),
    ("StateModifiers", namesJson b.modifiers)]

/-- Alternatives as a JSON value. -/
def listJson (l : List Branch) : Except Fault Json := do
  return .arr (← l.mapM toJson)

end Branch

/-- The alternatives of `left` followed by those of `right`. An empty list of alternatives carries
no requirements. -/
def distribute (left right : List Branch) : List Branch :=
  if left.isEmpty then right
  else if right.isEmpty then left
  else left.flatMap fun l => right.map fun r => l + r

@[simp] theorem nil_distribute (right : List Branch) : distribute [] right = right := rfl

@[simp] theorem distribute_nil (left : List Branch) : distribute left [] = left := by
  cases left <;> rfl

theorem mem_distribute {left right : List Branch} {b : Branch} (hl : left ≠ []) (hr : right ≠ []) :
    b ∈ distribute left right ↔ ∃ l ∈ left, ∃ r ∈ right, b = l + r := by
  simp only [distribute, List.isEmpty_iff, hl, hr, if_false, List.mem_flatMap, List.mem_map,
    @eq_comm _ b]

theorem distribute_ne_nil {left right : List Branch} (hr : right ≠ []) :
    distribute left right ≠ [] := by
  cases left with
  | nil => exact hr
  | cons a left =>
    obtain ⟨r, hr'⟩ := List.exists_mem_of_ne_nil _ hr
    exact List.ne_nil_of_mem ((mem_distribute (by simp) hr).2 ⟨a, by simp, r, hr', rfl⟩)

end RegionLogic
