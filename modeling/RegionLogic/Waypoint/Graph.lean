import RegionLogic.Entries
import RegionLogic.Json.Fields
import RegionLogic.Names

/-!
# The waypoint graph

Waypoints are named logic objects that other objects refer to. The graph holds for each name the
names that it refers to and those that refer to it, and lists the roots: the names that were entered
themselves and that no update has referred to since.

## Main definitions

* `WaypointGraph`: the graph
* `WaypointGraph.update`: enters a name and replaces what it refers to
* `WaypointGraph.inverse`: the graph with every edge turned round

## Main results

* `WaypointGraph.mem_names_of_mem_references`: only names of the graph refer to something
* `WaypointGraph.mem_names_update`: an update keeps the names and adds those it mentions
-/

namespace RegionLogic

/-- The edges at a name. -/
structure WaypointLinks where
  /-- The names that it refers to, in order. -/
  references : List Name := []
  /-- The names that refer to it, in order. -/
  referrers : List Name := []
  deriving DecidableEq, Inhabited

/-- Named objects and what they refer to. -/
structure WaypointGraph where
  /-- The names with their edges, in the order of their creation. -/
  nodes : List (Name × WaypointLinks) := []
  /-- The roots, in the order of their creation. -/
  roots : List Name := []
  deriving DecidableEq, Inhabited

namespace WaypointGraph

/-- The graph without names. -/
def empty : WaypointGraph := {}

/-- The names, in the order of their creation. -/
def names (g : WaypointGraph) : List Name := Entries.keys g.nodes

/-- The names that `name` refers to. -/
def references (g : WaypointGraph) (name : Name) : List Name :=
  (Entries.find? g.nodes name).elim [] (·.references)

/-- The names that refer to `name`. -/
def referrers (g : WaypointGraph) (name : Name) : List Name :=
  (Entries.find? g.nodes name).elim [] (·.referrers)

/-- The graph in which `name` is entered. A new name is a root. -/
def enter (g : WaypointGraph) (name : Name) : WaypointGraph :=
  if name ∈ g.names then g
  else { nodes := Entries.set g.nodes name {}, roots := addOnce g.roots name }

/-- The graph in which `name` refers to nothing. -/
def clear (g : WaypointGraph) (name : Name) : WaypointGraph :=
  let without := (g.references name).foldl (fun nodes old =>
    Entries.adjust nodes old fun l => { l with referrers := l.referrers.erase name }) g.nodes
  { g with nodes := Entries.adjust without name fun l => { l with references := [] } }

/-- The graph in which `name` refers to `target` too. A target that is not there yet is created
without becoming a root; one that is there ceases to be a root. -/
def link (name : Name) (g : WaypointGraph) (target : Name) : WaypointGraph :=
  let g :=
    if target ∈ g.names then { g with roots := g.roots.erase target }
    else { g with nodes := Entries.set g.nodes target {} }
  let nodes := Entries.adjust g.nodes name fun l =>
    { l with references := addOnce l.references target }
  { g with nodes := Entries.adjust nodes target fun l =>
    { l with referrers := addOnce l.referrers name } }

/-- The graph in which `name` refers to exactly the given names. -/
def update (g : WaypointGraph) (name : Name) (references : List Name) : WaypointGraph :=
  references.foldl (link name) ((g.enter name).clear name)

/-- The graph in which `name` refers to the items of a value, as far as they are names, and the fault of
the value or of its first item that is none. -/
def updateFrom (g : WaypointGraph) (name : Name) (v : Json) : WaypointGraph × Option Fault :=
  match v.items with
  | .error fault => (g.update name [], some fault)
  | .ok items =>
    let references := ((items.map Name.ofJson?).takeWhile (·.isSome)).filterMap id
    (g.update name references,
      (items.drop references.length).head?.map fun v => .shape (.unhashable v.shape))

/-- The graph with every edge turned round. Each name is entered in its turn. -/
def inverse (g : WaypointGraph) : WaypointGraph :=
  g.nodes.foldl (fun inverse node => inverse.update node.1 node.2.referrers) empty

/-! ## Names that are not in the graph -/

theorem references_of_not_mem {g : WaypointGraph} {a : Name} (h : a ∉ g.names) : g.references a = [] := by
  rw [references, Entries.find?_eq_none.2 h]
  rfl

theorem mem_names_of_mem_references {g : WaypointGraph} {a b : Name} (h : b ∈ g.references a) : a ∈ g.names := by
  refine Decidable.byContradiction fun ha => ?_
  rw [references_of_not_mem ha] at h
  cases h

/-! ## The names after each step -/

theorem names_enter (g : WaypointGraph) (name : Name) :
    (g.enter name).names = if name ∈ g.names then g.names else g.names ++ [name] := by
  unfold enter
  split
  · rfl
  · rename_i h
    exact (Entries.keys_set ..).trans (if_neg h)

@[simp] theorem names_clear (g : WaypointGraph) (name : Name) : (g.clear name).names = g.names := by
  have h : ∀ (l : List Name) (nodes : List (Name × WaypointLinks)),
      Entries.keys (l.foldl (fun nodes old =>
        Entries.adjust nodes old fun l => { l with referrers := l.referrers.erase name }) nodes) =
      Entries.keys nodes := by
    intro l
    induction l with
    | nil => simp
    | cons a l ih => intro nodes; simp [ih]
  simp [clear, names, h]

theorem names_link (g : WaypointGraph) (name target : Name) :
    (link name g target).names = if target ∈ g.names then g.names else g.names ++ [target] := by
  unfold link names
  simp only [Entries.keys_adjust]
  split
  · rfl
  · rename_i h
    exact (Entries.keys_set ..).trans (if_neg h)

/-- An update keeps the names and adds those it mentions. -/
theorem mem_names_update {g : WaypointGraph} {name other : Name} {references : List Name} :
    other ∈ (g.update name references).names ↔
      other ∈ g.names ∨ other = name ∨ other ∈ references := by
  have h : ∀ (l : List Name) (g : WaypointGraph),
      other ∈ (l.foldl (link name) g).names ↔ other ∈ g.names ∨ other ∈ l := by
    intro l
    induction l with
    | nil => simp
    | cons a l ih =>
      intro g
      rw [List.foldl_cons, ih, names_link, List.mem_cons]
      by_cases ha : a ∈ g.names
      · rw [if_pos ha]
        constructor
        · rintro (hg | hl)
          · exact Or.inl hg
          · exact Or.inr (Or.inr hl)
        · rintro (hg | rfl | hl)
          · exact Or.inl hg
          · exact Or.inl ha
          · exact Or.inr hl
      · rw [if_neg ha, List.mem_append, List.mem_singleton, or_assoc]
  rw [update, h, names_clear, names_enter]
  by_cases hn : name ∈ g.names
  · rw [if_pos hn]
    constructor
    · rintro (hg | hl)
      · exact Or.inl hg
      · exact Or.inr (Or.inr hl)
    · rintro (hg | rfl | hl)
      · exact Or.inl hg
      · exact Or.inl hn
      · exact Or.inr hl
  · rw [if_neg hn, List.mem_append, List.mem_singleton, or_assoc]

end WaypointGraph

end RegionLogic
