import RegionLogic.Listing
import RegionLogic.Waypoint.Graph

/-!
# Walks

A walk is a list of names that follow one another in the waypoint graph. Walks are continued from the
roots until they return to a name or end.

## Main definitions

* `Walk`: the walks
* `Walk.isCycle`, `Walk.cycleGroup?`: walks that return to a name, and the names on the way back
* `WaypointGraph.visited`: the walks that are taken up on the way from a walk
* `WaypointGraph.expand`: continues the walks of a queue
* `WaypointGraph.walks`: all walks from the roots
* `WaypointGraph.cycles`: those that return to a name

## Main results

* `WaypointGraph.room_snoc_lt`: a walk that is not over loses room when it is continued
-/

namespace RegionLogic

/-- The names that a walk passes, in order. -/
structure Walk where
  names : List Name
  deriving DecidableEq, Inhabited

namespace Walk

/-- The written form; the names have to be texts. -/
def text (w : Walk) : Except Fault String := joinNames " -> " w.names

/-- The form that shows where a walk begins and ends. -/
def display (w : Walk) : Except Fault String := do
  return "TraversalPath(" ++ Text.quoted (← w.text) ++ ")"

/-- Whether some name occurs twice. -/
def isCycle (w : Walk) : Bool := !decide w.names.Nodup

/-- The walk with one more name. -/
def snoc (w : Walk) (name : Name) : Walk := ⟨w.names ++ [name]⟩

/-- The names from the first occurrence of the last name on, without the last name. Whatever does not
return to a name has no such group. -/
def cycleGroup? (w : Walk) : Option Walk := do
  let last ← w.names.getLast?
  if w.isCycle then some ⟨(w.names.dropWhile (· ≠ last)).dropLast⟩ else none

/-- The group of a walk that has to return to a name. -/
def cycleGroup (w : Walk) : Except Fault Walk :=
  match w.cycleGroup? with
  | some group => .ok group
  | none => do throw (.notCycle (← w.text))

end Walk

namespace WaypointGraph

/-- The walk of the given names, which all have to be in the graph. -/
def walkOf (g : WaypointGraph) (names : List Name) : Except Fault Walk :=
  if names.all (Entries.has g.nodes) then .ok ⟨names⟩ else .error .noNode

/-- The names that the last name of a walk refers to. -/
def onward (g : WaypointGraph) (w : Walk) : List Name := w.names.getLast?.elim [] g.references

/-- The walk continued by each name that its last name refers to. -/
def extensions (g : WaypointGraph) (w : Walk) : List Walk := (g.onward w).map w.snoc

/-- Whether the last name of a walk refers to nothing. -/
def isComplete (g : WaypointGraph) (w : Walk) : Except Fault Bool :=
  if w.names.isEmpty then .error .emptyWalk else .ok (g.onward w).isEmpty

/-- The walk continued by each name that its last name refers to. A walk without names cannot be continued. -/
def continuations (g : WaypointGraph) (w : Walk) : Except Fault (List Walk) :=
  if w.names.isEmpty then .error .emptyWalk else .ok (g.extensions w)

/-- Whether a walk is not continued: it returns to a name, or its last name refers to nothing. -/
def isOver (g : WaypointGraph) (w : Walk) : Bool := w.isCycle || (g.onward w).isEmpty

/-! ## How far walks go -/

theorem onward_snoc (g : WaypointGraph) (w : Walk) (b : Name) : g.onward (w.snoc b) = g.references b := by
  rw [onward, Walk.snoc, List.getLast?_concat]
  rfl

/-- A walk that is not over passes no name twice, and its last name refers to something. -/
theorem not_isOver_iff {g : WaypointGraph} {w : Walk} :
    ¬g.isOver w ↔ w.names.Nodup ∧ g.onward w ≠ [] := by
  simp [isOver, Walk.isCycle]

/-- How many more names a walk can pass before it has to be over. -/
def room (g : WaypointGraph) (w : Walk) : Nat :=
  if g.isOver w then 0 else (g.names.filter (· ∉ w.names)).length + 1

/-- A walk that is not over loses room when it is continued. -/
theorem room_snoc_lt {g : WaypointGraph} {w : Walk} {b : Name} (h : ¬g.isOver w) :
    g.room (w.snoc b) < g.room w := by
  rw [room, room, if_neg h]
  split
  · exact Nat.succ_pos _
  · next hnext =>
    -- `b` refers to something, so it is a name of the graph, and the walk has not passed it before
    obtain ⟨hnodup, hne⟩ := not_isOver_iff.1 hnext
    rw [onward_snoc] at hne
    obtain ⟨c, hc⟩ := List.exists_mem_of_ne_nil _ hne
    have hb : b ∉ w.names := fun hb => (List.nodup_append.1 hnodup).2.2 b hb b (List.mem_singleton_self b) rfl
    have hfewer : g.names.filter (· ∉ (w.snoc b).names) =
        (g.names.filter (· ∉ w.names)).filter (· ≠ b) := by
      rw [List.filter_filter]
      refine List.filter_congr fun a _ => ?_
      simp [Walk.snoc, and_comm]
    have hshorter : (g.names.filter (· ∉ (w.snoc b).names)).length < (g.names.filter (· ∉ w.names)).length := by
      rw [hfewer, List.length_filter_lt_length_iff_exists]
      exact ⟨b, by simp [mem_names_of_mem_references hc, hb], by simp⟩
    omega

/-- The walks that are taken up until all continuations of `w` are over, depth first. -/
def visited (g : WaypointGraph) (w : Walk) : List Walk :=
  if g.isOver w then [w] else w :: (g.onward w).flatMap fun b => g.visited (w.snoc b)
termination_by g.room w
decreasing_by exact room_snoc_lt ‹_›

theorem visited_of_not_isOver {g : WaypointGraph} {w : Walk} (h : ¬g.isOver w) :
    g.visited w = w :: (g.extensions w).flatMap g.visited := by
  rw [visited, if_neg h, extensions, List.flatMap_map]

/-! ## Walks from the roots -/

/-- Takes up the walks of the queue `pending` one by one. A walk that is over is put to the finished ones if
it has at least two names. Any other walk is replaced by its continuations, which come next. -/
def expand (g : WaypointGraph) (finished : List Walk) : List Walk → List Walk
  | [] => finished
  | w :: pending =>
    if g.isOver w then
      g.expand (if 1 < w.names.length then finished ++ [w] else finished) pending
    else g.expand finished (g.extensions w ++ pending)
termination_by pending => (pending.flatMap g.visited).length
decreasing_by
  · rw [List.flatMap_cons, visited, if_pos ‹_›]
    simp
  · rw [List.flatMap_append, List.flatMap_cons, visited_of_not_isOver ‹_›]
    simp

/-- All walks of at least two names from the roots, depth first. -/
def walks (g : WaypointGraph) : List Walk := (g.expand [] (g.roots.map fun root => ⟨[root]⟩)).eraseDups

/-- The walks from the roots that return to a name. -/
def cycles (g : WaypointGraph) : List Walk := g.walks.filter (·.isCycle)

/-- The groups of names on the cycles that can be reached from the roots. -/
def cycleGroups (g : WaypointGraph) : List Walk :=
  g.cycles.filterMap (·.cycleGroup?)

end WaypointGraph

end RegionLogic
