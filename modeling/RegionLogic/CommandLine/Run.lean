import RegionLogic.CommandLine.Invocation
import RegionLogic.Settings.Load
import RegionLogic.Toml.Printer
import RegionLogic.World.Export

/-!
# Running command lines

What the commands do, and what a command line prints and returns.

## Main definitions

* `Command.run`: the work of a command
* `Outcome`: what is printed and returned
* `run`: the outcome of a command line
-/

namespace RegionLogic.CommandLine

/-- How a command ends. -/
inductive Ending where
  | done
  /-- It has found nothing. -/
  | nothing
  /-- It cannot be carried out. -/
  | refused (problem : String)
  deriving DecidableEq

variable {m : Type → Type} [Monad m] [FileAccess m]

/-! ## Commands -/

/-- Compiles a world and writes it. -/
def build (settings : Json) (quiet : Bool) (request : BuildRequest) : Job m Ending := do
  let listed ←
    match request.keepFile with
    | some path => Job.readNames path
    | none => pure ∅
  let w ← Job.compile settings {
    world := request.world
    start := request.start.elim .null .str
    keep := .arr ((NameSet.ofList (request.keep.map .text) ∪ listed).toList.map (·.toJson))
    inline := .arr (request.inline.map .str) }
  let paths ← Job.writeWorld settings request.output request.drawn w
  if !quiet then
    Job.print <|
      s!"✓ {w.regions.length} regions, {w.locations.length} locations, " ++
        s!"{w.transitions.length} transitions"
    paths.forM fun path => Job.print s!"  wrote {path.text}"
  return .done

/-- The objects whose names match one of the patterns; without patterns all of them. -/
def selectObjects (patterns : List String) (objects : List LogicObject) :
    Except Fault (List LogicObject) := do
  let selection ← WaypointSelection.read patterns
  if patterns.isEmpty then return objects
  else objects.filterM fun o => selection.accepts o.name

/-- The groups of objects on circles, each of them once. Where no root leads to a circle, the names on
circles are one group. -/
def cycleLines (g : WaypointGraph) : Except Fault (List String) := do
  match (← g.cycleGroups.mapM (·.text)).eraseDups with
  | [] => return [← joinNames ", " (← g.cyclicNames.inOrder)]
  | groups => return groups

/-- Reports circles of references between objects. -/
def cycles (settings : Json) (quiet : Bool) (world : Option Path) (patterns : List String) :
    Job m Ending := do
  let file ←
    match world with
    | some path => pure (some path)
    | none => Job.ofExcept do
      let v ← (← settings.requiredField "input").fieldOr "world" .null
      if v.isTruthy then return some (← Path.ofSetting v) else return none
  match file with
  | none =>
    return .refused "no world definition given; pass WORLD or set input.world"
  | some path =>
    let objects ← Job.ofExcept (selectObjects patterns (← Job.readWorld path))
    let _ ← Job.ofExcept (ClassificationModel.ofSettings settings)
    let g ← Job.ofExcept (referenceGraph objects)
    if g.cyclicNames.isEmpty then
      if !quiet then Job.print s!"No reference cycles among {g.names.length} objects"
    else
      let groups ← Job.ofExcept (cycleLines g)
      Job.print s!"Reference cycles ({groups.length})"
      Job.print (.ofList (List.replicate 60 '='))
      groups.forM fun group => Job.print ("  " ++ group)
    return .done

/-- A row of a table: a text, filled up to a width, and a second one. -/
def row (width : Nat) (left right : String) : String :=
  left ++ Text.spaces (width - left.length) ++ "  " ++ right

/-- Prints the kind of each modifier, and the kind of all in a run. -/
def classify (settings : Json) (terms : List String) : Job m Ending := do
  let model ← Job.ofExcept (ClassificationModel.ofSettings settings)
  let width := (terms.map (·.length)).foldl max 0
  terms.forM fun term => do
    Job.print (row width term (← Job.ofExcept (model.classify term)).name)
  if terms.length > 1 then
    Job.print (row width "(sequence)" (← Job.ofExcept (Classifier.many model.classify (terms.map .text))).name)
  return .done

/-- Prints the settings. -/
def showSettings (settings : List (String × Json)) (asJson : Bool) : Job m Ending := do
  if asJson then Job.print (Json.obj settings).indented
  else
    let text ← Job.ofExcept ((Toml.write settings).mapError .unwritable)
    modify fun t => { t with printed := t.printed ++ text }
  return .done

/-- The settings in effect. -/
def settingsOf (environment : List (String × String)) :
    SettingsChoice → Job m (List (String × Json))
  | .nearest => Settings.current environment none .here
  | .named path => Settings.current environment (some path) .here
  | .unnamed => throw (.shape (.notPath .arr))

/-- Prints where the settings come from. -/
def settingsPath (choice : SettingsChoice) : Job m Ending := do
  let found ←
    match choice with
    | .named path => pure (some path)
    | _ => Settings.findFile .here
  match found with
  | some path =>
    Job.print path.text
    return .done
  | none =>
    Job.print ("No " ++ Settings.fileName ++ " found; using defaults")
    return .nothing

/-- The work of an invocation. -/
def Invocation.run (environment : List (String × String)) (i : Invocation) : Job m Ending := do
  let settings : Job m (List (String × Json)) := settingsOf environment i.settings
  match i.command with
  | .nothing => do
    modify fun t => { t with printed := t.printed ++ HelpText.main.text }
    return .done
  | .build request => do build (.obj (← settings)) i.quiet request
  | .cycles world patterns => do cycles (.obj (← settings)) i.quiet world patterns
  | .classify terms => do classify (.obj (← settings)) terms
  | .showSettings asJson => do showSettings (← settings) asJson
  | .settingsPath => settingsPath i.settings
  | .unclearSettings => do
    Job.print "Usage: logicgraph config \x7bshow|path\x7d"
    return .nothing

/-! ## Outcomes -/

/-- What a command line prints and returns. -/
structure Outcome where
  code : Nat
  printed : String := ""
  /-- What is printed as a message. -/
  messages : String := ""
  /-- The fault that is passed on instead of being told. -/
  passedOn : Option Fault := none
  deriving DecidableEq

/-- The least level of the events that are told. -/
def Invocation.level (i : Invocation) : Level :=
  if i.quiet then .error
  else
    match i.verbosity with
    | 0 => .warning
    | 1 => .info
    | _ => .debug

/-- An event as a line. -/
def Event.line (e : Event) : String := e.level.name ++ " " ++ e.part.name ++ ": " ++ e.message

/-- The outcome of an invocation. At the greatest verbosity a fault is passed on. -/
def Invocation.outcome (environment : List (String × String)) (i : Invocation) : m Outcome := do
  let (result, transcript) ← (i.run environment).outcome
  let log := HelpText.lines ((atLeast i.level transcript.events).map Event.line)
  let printed := transcript.printed
  match result with
  | .ok .done => return { code := 0, printed, messages := log }
  | .ok .nothing => return { code := 1, printed, messages := log }
  | .ok (.refused problem) =>
    return { code := 1, printed, messages := log ++ "Error: " ++ problem ++ "\n" }
  | .error fault =>
    if i.verbosity ≥ 2 then return { code := 1, printed, messages := log, passedOn := some fault }
    else return { code := 1, printed, messages := log ++ "Error: " ++ fault.message ++ "\n" }

/-- The version of the program. -/
def version : String := "0.1.0"

/-- The outcome of a command line that asks for nothing. -/
def Refusal.outcome : Refusal → Outcome
  | misuse program text problem =>
    { code := 2, messages := text.usageText ++ program ++ ": error: " ++ problem ++ "\n" }
  | help text => { code := 0, printed := text.text }
  | version => { code := 0, printed := "logicgraph " ++ CommandLine.version ++ "\n" }

/-- The outcome of a command line. -/
def run (environment : List (String × String)) (texts : List String) : m Outcome :=
  match Invocation.read texts with
  | .ok i => i.outcome environment
  | .error refusal => return refusal.outcome

end RegionLogic.CommandLine
