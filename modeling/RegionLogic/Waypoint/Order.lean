import RegionLogic.NameSet
import RegionLogic.Waypoint.Walk

/-!
# Order of substitution

Definitions can be substituted into each other in an order in which every name comes after all names
that it refers to. Such an order exists if and only if no name refers to itself, directly or through
others.

## Main definitions

* `WaypointGraph.Frontier`: the state in which names are put in order
* `WaypointGraph.readyOrder`: the names that can be put in order
* `WaypointGraph.reaches`: whether a name is reached through one or more references
* `WaypointGraph.cyclicNames`: the names on cycles
* `WaypointGraph.substitutionOrder`: the order, or the cycles that prevent it
* `WaypointGraph.toldOrder`: the order, or the cycles if they can be told

## Main results

* `WaypointGraph.Frontier.ahead_release_le`: a note leaves no more names ahead than before
-/

namespace RegionLogic

namespace WaypointGraph

/-- The state in which names are put in order: those in order, those that come next, and what the others
still lack. -/
structure Frontier where
  /-- The names in order. -/
  order : List Name
  /-- The names that come next. -/
  queue : List Name
  /-- For each name, how many of the names that it refers to have not been put in order. -/
  missing : List (Name × Int)

/-- Takes note that a name that `name` refers to is in order. If it was the last one, `name` comes next. -/
def Frontier.release (f : Frontier) (name : Name) : Frontier :=
  let missing := Entries.adjust f.missing name (· - 1)
  { f with
    missing
    queue := if Entries.find? missing name = some 0 then f.queue ++ [name] else f.queue }

/-- A number that a name lacks comes to nothing at most once. -/
theorem countP_missing_adjust (missing : List (Name × Int)) (name : Name) :
    (Entries.adjust missing name (· - 1)).countP (0 < ·.2) +
        (if Entries.find? (Entries.adjust missing name (· - 1)) name = some 0 then 1 else 0) ≤
      missing.countP (0 < ·.2) := by
  induction missing with
  | nil => simp [Entries.adjust, Entries.find?]
  | cons e missing ih =>
    by_cases h : e.1 = name
    · simp only [Entries.adjust, Entries.find?, h, if_true, List.countP_cons, Option.some.injEq,
        decide_eq_true_eq]
      split <;> split <;> split <;> omega
    · simp only [Entries.adjust, Entries.find?, h, if_false, List.countP_cons]
      omega

/-- How many names still come next or lack something. -/
def Frontier.ahead (f : Frontier) : Nat := f.queue.length + f.missing.countP (0 < ·.2)

theorem Frontier.ahead_release_le (f : Frontier) (name : Name) : (f.release name).ahead ≤ f.ahead := by
  have hcount := countP_missing_adjust f.missing name
  simp only [ahead, release]
  split at hcount
  · next h =>
    rw [if_pos h, List.length_append, List.length_singleton]
    omega
  · next h =>
    rw [if_neg h]
    omega

theorem Frontier.ahead_foldl_release_le (l : List Name) (f : Frontier) : (l.foldl release f).ahead ≤ f.ahead := by
  induction l generalizing f with
  | nil => exact Nat.le_refl _
  | cons a l ih => exact Nat.le_trans (ih (f.release a)) (ahead_release_le f a)

/-- Puts the names that come next in order, one by one; each is noted at the names that refer to it. -/
def advance (g : WaypointGraph) (f : Frontier) : List Name :=
  match _h : f.queue with
  | [] => f.order
  | name :: queue =>
    advance g ((g.referrers name).foldl Frontier.release
      { order := f.order ++ [name], queue, missing := f.missing })
termination_by f.ahead
decreasing_by
  refine Nat.lt_of_le_of_lt (Frontier.ahead_foldl_release_le ..) ?_
  simp [Frontier.ahead, _h]

/-- The names that can be put in order, in that order. -/
def readyOrder (g : WaypointGraph) : List Name :=
  advance g
    { order := []
      queue := g.names.filter fun name => (g.references name).isEmpty
      missing := g.names.map fun name => (name, ((g.references name).length : Int)) }

/-- How many names the references of `unseen` names can still add to a search. -/
def comingUp (g : WaypointGraph) (unseen : List Name) : Nat := (unseen.flatMap g.references).length

theorem comingUp_erase {g : WaypointGraph} {unseen : List Name} {name : Name} (h : name ∈ unseen) :
    g.comingUp unseen = (g.references name).length + g.comingUp (unseen.erase name) := by
  have hperm := (List.perm_cons_erase h).flatMap_right g.references
  rw [List.flatMap_cons] at hperm
  rw [comingUp, hperm.length_eq, List.length_append]
  rfl

/-- Whether `goal` is among the names of `stack` or is reached from them. `unseen` holds the names
whose references have not been followed. -/
def search (g : WaypointGraph) (goal : Name) (unseen : List Name) : List Name → Bool
  | [] => false
  | name :: stack =>
    if name = goal then true
    else if _h : name ∈ unseen then
      search g goal (unseen.erase name) (g.references name ++ stack)
    else search g goal unseen stack
termination_by stack => stack.length + g.comingUp unseen
decreasing_by
  · have := comingUp_erase (g := g) _h
    rw [List.length_append, List.length_cons]
    omega
  · rw [List.length_cons]
    omega

/-- Whether `goal` is reached from `start` through one or more references. -/
def reaches (g : WaypointGraph) (start goal : Name) : Bool :=
  search g goal g.names (g.references start)

/-- The names on cycles: those in the groups that can be reached from the roots, and those that cannot
be put in order and reach themselves. -/
def cyclicNames (g : WaypointGraph) : NameSet :=
  let order := g.readyOrder
  .ofList (g.cycleGroups.flatMap (·.names) ++
    g.names.filter fun name => name ∉ order && g.reaches name name)

/-- The names in an order in which each comes after all names that it refers to, or the cycles that
prevent it. Where no root leads to a cycle, the names on cycles are listed one by one. -/
def substitutionOrder (g : WaypointGraph) : Except Fault (List Name) :=
  let order := g.readyOrder
  if order.length = g.names.length then .ok order
  else
    match g.cycleGroups with
    | [] => .error (.cyclic (g.cyclicNames.toList.map fun name => [name]))
    | groups => .error (.cyclic (groups.map (·.names)))

/-- The order, or the cycles that prevent it. Cycles can be told if all names on them are texts. -/
def toldOrder (g : WaypointGraph) : Except Fault (List Name) :=
  match g.substitutionOrder with
  | .error (.cyclic cycles) => do
    cycles.forM fun names => do let _ ← Walk.text ⟨names⟩
    throw (.cyclic cycles)
  | result => result

end WaypointGraph

end RegionLogic
