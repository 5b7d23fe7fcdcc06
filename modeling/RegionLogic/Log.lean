import RegionLogic.Fault

/-!
# Log events

The operations record what they do as events. An operation that fails keeps the events that it
recorded before.

## Main definitions

* `Level`, `Part`, `Event`: the events
* `Logged`: a computation that records events and may fail
-/

namespace RegionLogic

/-- How important an event is. -/
inductive Level where
  /-- Details of the work. -/
  | debug
  /-- What has been done. -/
  | info
  /-- Something that is probably not wanted. -/
  | warning
  /-- Something that could not be done. -/
  | error
  deriving DecidableEq

/-- The place of a level in the order of importance. -/
def Level.rank : Level → Nat
  | debug => 0
  | info => 1
  | warning => 2
  | error => 3

/-- The name of a level. -/
def Level.name : Level → String
  | debug => "DEBUG"
  | info => "INFO"
  | warning => "WARNING"
  | error => "ERROR"

/-- The parts of the program that record events. -/
inductive Part where
  | builder
  /-- Elimination of dominated branches. -/
  | dominance
  /-- Shortening of modifier runs. -/
  | reducer
  | solver
  /-- Reading of world files. -/
  | reader
  /-- The way from a world file to a region graph. -/
  | pipeline
  deriving DecidableEq

/-- The name of a part in log lines. -/
def Part.name : Part → String
  | builder => "logicgraph.graph.builder"
  | dominance => "logicgraph.graph.dominance"
  | reducer => "logicgraph.graph.reducer"
  | solver => "logicgraph.graph.solver"
  | reader => "logicgraph.graph.deserializer"
  | pipeline => "logicgraph.graph.factory"

/-- A recorded event. -/
structure Event where
  /-- How important it is. -/
  level : Level
  /-- Which part recorded it. -/
  part : Part
  message : String
  deriving DecidableEq

/-- A computation that records events and may fail; the events stay when it fails. -/
abbrev Logged := ExceptT Fault (StateM (List Event))

/-- Records an event. -/
def record (level : Level) (part : Part) (message : String) : Logged Unit :=
  modify (· ++ [⟨level, part, message⟩])

/-- The outcome of a computation and the events that it records. -/
def Logged.outcome {α : Type} (m : Logged α) : Except Fault α × List Event := (m.run).run []

/-- The events of at least the given importance. -/
def atLeast (level : Level) (events : List Event) : List Event :=
  events.filter (level.rank ≤ ·.level.rank)

end RegionLogic
