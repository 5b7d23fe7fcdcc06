import RegionLogic.CommandLine.Grammar
import RegionLogic.CommandLine.HelpText
import RegionLogic.Files.Path

/-!
# Invocations

What the words of a command line ask for.

## Main definitions

* `Command`, `Invocation`: what is asked for
* `Refusal`: why a command line asks for nothing
* `Invocation.read`: the invocation that a command line makes
-/

namespace RegionLogic.CommandLine

/-- What is asked for with `build`. -/
structure BuildRequest where
  world : Option Path := none
  /-- The directory for the results. -/
  output : Option Path := none
  /-- The region to become the start region. -/
  start : Option String := none
  keep : List String := []
  /-- A file with names of regions to keep. -/
  keepFile : Option Path := none
  /-- Patterns of waypoints to inline. -/
  inline : List String := []
  /-- Whether a drawing is wanted. -/
  drawn : Bool := true
  deriving DecidableEq

/-- The commands. -/
inductive Command where
  | nothing
  | build (request : BuildRequest)
  /-- Report circles of references. -/
  | cycles (world : Option Path) (patterns : List String)
  | classify (terms : List String)
  | showSettings (asJson : Bool)
  /-- Show where the settings come from. -/
  | settingsPath
  /-- Something about the settings, but it is not said what. -/
  | unclearSettings
  deriving DecidableEq

/-- Which settings file is wanted. -/
inductive SettingsChoice where
  | nearest
  | named (path : Path)
  /-- One that the command line announces and does not name. -/
  | unnamed
  deriving DecidableEq

/-- What a command line asks for. -/
structure Invocation where
  settings : SettingsChoice := .nearest
  /-- How much is to be told. -/
  verbosity : Nat := 0
  /-- Whether only failures are to be told. -/
  quiet : Bool := false
  command : Command := .nothing
  deriving DecidableEq

/-- Why a command line asks for nothing. -/
inductive Refusal where
  /-- It cannot be understood. -/
  | misuse (program : String) (help : HelpText) (problem : String)
  /-- It asks for help. -/
  | help (text : HelpText)
  /-- It asks for the version. -/
  | version
  deriving DecidableEq

/-! ## Grammars -/

/-- The switch that asks for help. -/
def helpSwitch : Switch := { names := ["-h", "--help"], ends := true }

/-- The switch that asks for the version. -/
def versionSwitch : Switch := { names := ["--version"], ends := true }

/-- The grammar of the program. -/
def mainGrammar : Grammar where
  program := "logicgraph"
  switches := [
    helpSwitch,
    versionSwitch,
    { names := ["--config"], arity := .one },
    { names := ["-v", "--verbose"] },
    { names := ["-q", "--quiet"] }]
  operand := some ⟨"command", .command ["build", "cycles", "classify", "config"]⟩

/-- The grammar of `build`. -/
def buildGrammar : Grammar where
  program := "logicgraph build"
  switches := [
    helpSwitch,
    { names := ["-o", "--output"], arity := .one },
    { names := ["--start"], arity := .one },
    { names := ["--keep"], arity := .some },
    { names := ["--keep-file"], arity := .one },
    { names := ["--inline-waypoint"], arity := .one },
    { names := ["--no-dot"] }]
  operand := some ⟨"world", .atMostOne⟩

/-- The grammar of `cycles`. -/
def cyclesGrammar : Grammar where
  program := "logicgraph cycles"
  switches := [helpSwitch, { names := ["--pattern"], arity := .one }]
  operand := some ⟨"world", .atMostOne⟩

/-- The grammar of `classify`. -/
def classifyGrammar : Grammar where
  program := "logicgraph classify"
  switches := [helpSwitch]
  operand := some ⟨"TOKEN", .some⟩

/-- The grammar of `config`. -/
def configGrammar : Grammar where
  program := "logicgraph config"
  switches := [helpSwitch]
  operand := some ⟨"config_action", .command ["show", "path"]⟩

/-- The grammar of `config show`. -/
def showGrammar : Grammar where
  program := "logicgraph config show"
  switches := [helpSwitch, { names := ["--json"] }]

/-- The grammar of `config path`. -/
def pathGrammar : Grammar where
  program := "logicgraph config path"
  switches := [helpSwitch]

/-! ## Reading -/

/-- The arguments of a command line, unless it asks for help or the version. -/
def parseWith (g : Grammar) (help : HelpText) (texts : List String) : Except Refusal Parsed :=
  match g.parse texts with
  | .error problem => .error (.misuse g.program help problem)
  | .ok p =>
    match p.ended with
    | none => .ok p
    | some key => .error (if key = versionSwitch.key then .version else .help help)

/-- What `build` asks for. -/
def buildRequest (p : Parsed) : BuildRequest where
  world := (p.word? "world").map .ofText
  output := (p.word? "--output").map .ofText
  start := p.word? "--start"
  keep := (p.words? "--keep").getD []
  keepFile := (p.word? "--keep-file").map .ofText
  inline := p.allTexts "--inline-waypoint"
  drawn := p.times "--no-dot" = 0

/-- The settings file that is wanted. -/
def settingsChoice (p : Parsed) : SettingsChoice :=
  match p.words? "--config" with
  | none => .nearest
  | some [] => .unnamed
  | some (word :: _) => .named (.ofText word)

/-- A command, and the words that belong to nothing. -/
abbrev CommandResult := Except Refusal (Command × List String)

/-- What `config` asks for. -/
def readConfig (texts : List String) : CommandResult := do
  let p ← parseWith configGrammar .config texts
  match p.words? "config_action" with
  | some ("show" :: rest) =>
    let q ← parseWith showGrammar .configShow rest
    return (.showSettings (q.times "--json" ≠ 0), p.extra ++ q.extra)
  | some (_ :: rest) =>
    let q ← parseWith pathGrammar .configPath rest
    return (.settingsPath, p.extra ++ q.extra)
  | _ => return (.unclearSettings, p.extra)

/-- What a command with its words asks for. -/
def readCommand (name : String) (texts : List String) : CommandResult :=
  if name = "build" then do
    let p ← parseWith buildGrammar .build texts
    return (.build (buildRequest p), p.extra)
  else if name = "cycles" then do
    let p ← parseWith cyclesGrammar .cycles texts
    return (.cycles ((p.word? "world").map .ofText) (p.allTexts "--pattern"), p.extra)
  else if name = "classify" then do
    let p ← parseWith classifyGrammar .classify texts
    return (.classify ((p.words? "TOKEN").getD []), p.extra)
  else readConfig texts

/-- The invocation that a command line makes. -/
def Invocation.read (texts : List String) : Except Refusal Invocation := do
  let p ← parseWith mainGrammar .main texts
  let (command, extra) ←
    match p.words? "command" with
    | some (name :: rest) => readCommand name rest
    | _ => pure (.nothing, [])
  match p.extra ++ extra with
  | [] =>
    return {
      settings := settingsChoice p
      verbosity := p.times "--verbose"
      quiet := p.times "--quiet" ≠ 0
      command }
  | unknown =>
    throw (.misuse mainGrammar.program .main
      ("unrecognized arguments: " ++ " ".intercalate unknown))

end RegionLogic.CommandLine
