import RegionLogic.Files.Access
import RegionLogic.Json.Reader
import RegionLogic.Log

/-!
# Jobs

A job works with files, records events and prints, and may fail. What it has recorded and printed
before it fails stays.

## Main definitions

* `Job`: the jobs
* `Job.readFile`, `Job.readJson`, `Job.writeFile`: reading and writing files
-/

namespace RegionLogic

/-- What a job has recorded and printed. -/
structure Transcript where
  /-- The events, the first one first. -/
  events : List Event := []
  printed : String := ""
  deriving DecidableEq, Inhabited

/-- Work with files that records events and may fail. -/
abbrev Job (m : Type → Type) := ExceptT Fault (StateT Transcript m)

namespace Job

variable {m : Type → Type} [Monad m]

/-- The outcome of a job and its transcript. -/
def outcome {α : Type} (job : Job m α) : m (Except Fault α × Transcript) := (job.run).run {}

/-- Adds events to the transcript. -/
def recordAll (events : List Event) : Job m Unit :=
  modify fun t => { t with events := t.events ++ events }

/-- Records an event. -/
def record (level : Level) (part : Part) (message : String) : Job m Unit :=
  recordAll [⟨level, part, message⟩]

/-- Prints a line. -/
def print (line : String) : Job m Unit :=
  modify fun t => { t with printed := t.printed ++ line ++ "\n" }

/-- What the outcome of a check gives. -/
def ofExcept {α : Type} : Except Fault α → Job m α
  | .ok a => pure a
  | .error fault => throw fault

/-- The work of a computation that records events, without files. -/
def ofLogged {α : Type} (work : Logged α) : Job m α := do
  let (result, events) := work.outcome
  recordAll events
  ofExcept result

variable [FileAccess m]

/-- An operation on files. -/
def files {α : Type} (operation : m α) : Job m α := fun t => do return (.ok (← operation), t)

/-- The text of a file, with unified line ends. -/
def readFile (path : Path) : Job m String := do
  return Text.unifyLines (← ofExcept (← files (FileAccess.readText path)))

/-- The value in a JSON file. -/
def readJson (path : Path) : Job m Json := do
  ofExcept ((Json.read (← readFile path)).mapError Fault.ofUnreadable)

/-- Writes a file, and makes the directories above it. The text is computed once they are there. -/
def writeFile (path : Path) (text : Except Fault String) : Job m Path := do
  ofExcept (← files (FileAccess.makeDirectories path.parent))
  ofExcept (← files (FileAccess.writeText path (← ofExcept text)))
  return path

end Job

end RegionLogic
