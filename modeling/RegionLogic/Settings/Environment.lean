import RegionLogic.Fault
import RegionLogic.Json.Reader
import RegionLogic.Settings.Defaults
import RegionLogic.Text.Blank
import RegionLogic.Text.Integer
import RegionLogic.Text.LowerCase

/-!
# Settings from the environment

A variable `LOGICGRAPH_SECTION_KEY` overrides the setting `key` of the section `section`. Its value is
read as a truth value or as JSON where it looks like one; a text for a list setting is split at
commas, and a text for an integer setting has to be an integer.

## Main definitions

* `Settings.readValue`: the value that a text looks like
* `Settings.conform`: a value in the form of the default
* `Settings.override`: settings with one variable applied
* `Settings.applyEnvironment`: settings with all variables applied
-/

namespace RegionLogic.Settings

/-- What the names of the variables begin with. -/
def variableStart : String := "LOGICGRAPH_"

/-- The value that a text looks like: a truth value, a JSON list or table, or else the text. -/
def readValue (s : String) : Except Fault Json :=
  let small := Text.lower s
  if small = "true" then .ok (.bool true)
  else if small = "false" then .ok (.bool false)
  else
    match s.toList.head? with
    | some '[' | some '\x7b' =>
      match Json.read s with
      | .ok v => .ok v
      | .error (.malformed _) => .ok (.str s)
      | .error (.excess cause) => .error (.excess cause)
    | _ => .ok (.str s)

/-- The pieces of a text between commas, stripped of blanks; empty ones do not count. -/
def splitList (s : String) : List String :=
  ((s.splitOn ",").map Text.strip).filter (!·.isEmpty)

/-- A value in the form of the default of its setting: a text becomes a list or an integer where the
default is one. -/
def conform (name : String) (default : Option Json) (v : Json) : Except Fault Json :=
  match default, v with
  | some (.arr _), .str s => .ok (texts (splitList s))
  | some (.int _), .str s =>
    match Text.readInteger s with
    | .ok n => .ok (.int n)
    | .error _ => .error (.settingNotInteger name (Text.quoted s))
  | _, v => .ok v

/-- The section and the key that a variable names, if it names a setting. -/
def settingOf? (name : String) : Option (String × String) :=
  if variableStart.toList.isPrefixOf name.toList then
    let rest := (Text.lower (.ofList (name.toList.drop variableStart.length))).toList
    let before := rest.takeWhile (· ≠ '_')
    let key := (rest.dropWhile (· ≠ '_')).drop 1
    if before.isEmpty || key.isEmpty then none else some (.ofList before, .ofList key)
  else none

/-- The fields with a setting entered in its section. -/
def enter (fields : List (String × Json)) (sectionName key : String) (v : Json) :
    Except Fault (List (String × Json)) :=
  match (Entries.find? fields sectionName).getD (.obj []) with
  | .obj settings => .ok (Entries.set fields sectionName (.obj (Entries.set settings key v)))
  | other => .error (.shape (.notAssignable other.shape))

/-- The settings with one variable applied. -/
def override (fields : List (String × Json)) (name value : String) :
    Except Fault (List (String × Json)) :=
  match settingOf? name with
  | none => .ok fields
  | some (sectionName, key) => do
    enter fields sectionName key (← conform name (default? sectionName key) (← readValue value))

/-- The settings with all variables applied, one after the other. -/
def applyEnvironment (environment : List (String × String)) (fields : List (String × Json)) :
    Except Fault (List (String × Json)) :=
  environment.foldlM (fun fields v => override fields v.1 v.2) fields

end RegionLogic.Settings
