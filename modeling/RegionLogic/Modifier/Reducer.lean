import RegionLogic.LogicObject

/-!
# Shortening modifier runs

Runs of modifiers grow when waypoints are inlined. They are shortened by rules about the heads of the
modifiers: a state setter directly after one with the same head is dropped; a stretch made of one
commuting pair only becomes that pair in its fixed order; a run that uses an exclusive modifier twice
without its reset in between, or that is too long, cannot be used at all.

## Main definitions

* `Reducer`: the rules
* `dropRepeats`, `collapsePairs`: the two ways of shortening a run
* `violatesExclusive`: a run that cannot be used
* `Reducer.reduce`: the shortened clause, if it can be used
* `Reducer.reduceObjects`: the objects with shortened clauses
-/

namespace RegionLogic

/-- A modifier with its head. -/
structure HeadedTerm where
  term : Name
  head : String
  deriving DecidableEq

/-- The rules by which modifier runs are shortened. -/
structure Reducer where
  /-- Heads of modifiers that set a state. -/
  setters : NameSet
  /-- Heads that can be used again only after the reset they are listed with, or never again. -/
  exclusive : List (String × Option String)
  /-- Pairs of heads whose order does not matter, each in the order to be written. -/
  pairs : List (List String)
  /-- The fault that is met where two different heads stand next to each other that are none of the
  pairs. -/
  pairFault : Option Fault := none
  /-- The greatest length of a run. -/
  maxModifiers : Int
  deriving DecidableEq

/-- The run in which a setter that directly follows one with the same head, kept or dropped, is
dropped. `last` is the head before the run. -/
def dropRepeats (setters : NameSet) (last : Option String) : List HeadedTerm → List HeadedTerm
  | [] => []
  | t :: ts =>
    if .text t.head ∈ setters ∧ last = some t.head then dropRepeats setters last ts
    else t :: dropRepeats setters (some t.head) ts

/-- Whether a list holds both of two heads and no other. -/
def isPairOf (p : List String) (first second : String) : Bool :=
  first ∈ p && second ∈ p && p.all fun a => a = first || a = second

/-- The first pair made of two different heads. -/
def commutingPair? (pairs : List (List String)) (first second : String) : Option (List String) :=
  pairs.find? fun p => first ≠ second && isPairOf p first second

/-- The run in which every stretch made of one commuting pair is replaced by its first two terms, in
the order of the pair. -/
def collapsePairs (pairs : List (List String)) : List HeadedTerm → List HeadedTerm
  | s :: t :: rest =>
    match commutingPair? pairs s.head t.head with
    | none => s :: collapsePairs pairs (t :: rest)
    | some pair =>
      let after := collapsePairs pairs (rest.dropWhile (·.head ∈ pair))
      if pair.head? = some s.head then s :: t :: after else t :: s :: after
  | [t] => [t]
  | [] => []
termination_by ts => ts.length
decreasing_by
  · simp
  · have := (List.dropWhile_sublist (fun t : HeadedTerm => decide (t.head ∈ pair)) (l := rest)).length_le
    simp
    omega

/-- Whether two different heads stand next to each other that no pair joins, where every stretch made
of one commuting pair counts as joined. -/
def meetsStrangers (pairs : List (List String)) : List HeadedTerm → Bool
  | s :: t :: rest =>
    match commutingPair? pairs s.head t.head with
    | none => s.head ≠ t.head || meetsStrangers pairs (t :: rest)
    | some pair => meetsStrangers pairs (rest.dropWhile (·.head ∈ pair))
  | _ => false
termination_by ts => ts.length
decreasing_by
  · simp
  · have := (List.dropWhile_sublist (fun t : HeadedTerm => decide (t.head ∈ pair)) (l := rest)).length_le
    simp
    omega

/-- Whether `head` comes again before its reset, if it has one. -/
def comesAgain (head : String) (reset : Option String) : List String → Bool
  | [] => false
  | later :: rest =>
    if later = head then true
    else if some later = reset then false else comesAgain head reset rest

/-- Whether an exclusive head comes again before its reset. -/
def violatesExclusive (exclusive : List (String × Option String)) : List String → Bool
  | [] => false
  | head :: rest =>
    (match Entries.find? exclusive head with
      | none => false
      | some reset => comesAgain head reset rest) || violatesExclusive exclusive rest

namespace Reducer

/-- The shortened run. -/
def shorten (r : Reducer) (run : List HeadedTerm) : List HeadedTerm :=
  collapsePairs r.pairs (dropRepeats r.setters none run)

/-- Whether a shortened run can be used. -/
def accepts (r : Reducer) (run : List HeadedTerm) : Bool :=
  !violatesExclusive r.exclusive (run.map (·.head)) && run.length ≤ r.maxModifiers

/-- A modifier with its head. -/
def headed (term : Name) : Except Fault HeadedTerm := do
  return ⟨term, ← modifierHead term⟩

/-- The clause with its run shortened, or `none` if the run cannot be used. -/
def reduce (r : Reducer) (c : Clause) : Except Fault (Option Clause) := do
  let run ← c.modifiers.mapM headed
  match r.pairFault with
  | some fault => if meetsStrangers r.pairs (dropRepeats r.setters none run) then throw fault
  | none => pure ()
  let short := r.shorten run
  return if r.accepts short then some { c with modifiers := short.map (·.term) } else none

/-- The objects with their clauses shortened; an object that loses clauses is recorded. -/
def reduceObjects (r : Reducer) (objects : List LogicObject) : Logged (List LogicObject) :=
  objects.mapM fun o => do
    let logic := (← o.logic.mapM fun c => (r.reduce c : Except Fault _)).filterMap id
    if logic.length ≠ o.logic.length then
      record .debug .reducer
        s!"Reduced {o.name} from {o.logic.length} to {logic.length} clauses"
    return { o with logic }

/-- The fields of a table, or the pairs of a list in which names stand for fields; of two values for
the same name the later one counts. -/
def readPairs (v : Json) : Except Fault (List (Name × Json)) :=
  match v with
  | .obj fields => .ok (fields.map fun f => (.text f.1, f.2))
  | v => do
    (← v.items).zipIdx.foldlM (fun fields (entry, i) => do
      match entry.items with
      | .ok [k, w] => return Entries.set fields (← k.name) w
      | .ok other => throw (.pairLength i other.length)
      | .error _ => throw (.shape (.notPair i))) []

/-- The resets by head that a value gives. A head whose reset is absent is not exclusive, and one whose
reset is no text is never reset. -/
def readExclusive (v : Json) : Except Fault (List (String × Option String)) := do
  let fields ← if v.isTruthy then readPairs v else pure []
  return fields.filterMap fun
    | (_, .null) => none
    | (.text head, .str reset) => some (head, some reset)
    | (.text head, _) => some (head, none)
    | (.odd _, _) => none

/-- The pairs in a list of lists, up to the first one with an item that cannot be a member of a set,
and the fault of that item. A pair with an item that is no text joins no heads. -/
def takePairs : List (List Json) → List (List String) × Option Fault
  | [] => ([], none)
  | items :: rest =>
    match items.mapM Json.name with
    | .error fault => ([], some fault)
    | .ok names =>
      let (pairs, fault) := takePairs rest
      match names.mapM Name.text? with
      | some pair => (pair :: pairs, fault)
      | none => (pairs, fault)

/-- The rules that the settings give. -/
def ofSettings (settings : Json) : Except Fault Reducer := do
  let v ← settings.fieldOr "reducer" (.obj [])
  let setters ← v.fieldOr "state_setters" (.arr [])
  let exclusive ← v.fieldOr "exclusive" (.obj [])
  let maxModifiers ← (← v.fieldOr "max_modifiers" (.int 10)).integer
  let listed ← v.fieldOr "commuting_pairs" (.arr [])
  let setters ← setters.nameSet
  let exclusive ← readExclusive exclusive
  let (pairs, pairFault) := takePairs (← (← listed.items).mapM (·.items))
  return { setters, exclusive, pairs, pairFault, maxModifiers }

end Reducer

end RegionLogic
