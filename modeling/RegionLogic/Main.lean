import RegionLogic.CommandLine.Run

/-!
# The program

Runs the command line on the files of the machine.
-/

namespace RegionLogic

/-- The fault of a failed operation on a file. -/
def faultOfFailure (path : Path) : IO.Error → Fault
  | .noFileOrDirectory .. => .missingFile path.text
  | .inappropriateType .. => .notDirectory path.text
  | .alreadyExists .. => .fileExists path.text
  | _ => .missingFile path.text

/-- An operation on a file, its failure as a fault. -/
def guarded {α : Type} (path : Path) (operation : IO α) : IO (Except Fault α) := do
  try return .ok (← operation)
  catch e => return .error (faultOfFailure path e)

/-- Whether a path leads to a directory. -/
def leadsToDirectory (path : Path) : IO Bool := do ((← IO.currentDir) / path.text).isDir

/-- Whether a path leads to anything. -/
def leadsSomewhere (path : Path) : IO Bool := do ((← IO.currentDir) / path.text).pathExists

instance : FileAccess IO where
  currentDirectory := return .ofText (← IO.currentDir).toString
  isFile path := do
    if ← leadsSomewhere path then return !(← leadsToDirectory path) else return false
  readText path := do
    if ← leadsToDirectory path then return .error (.isDirectory path.text)
    guarded path (IO.FS.readFile path.text)
  makeDirectories path := do
    if ← leadsToDirectory path then return .ok ()
    if ← leadsSomewhere path then return .error (.fileExists path.text)
    guarded path (IO.FS.createDirAll path.text)
  writeText path text := do
    if ← leadsToDirectory path then return .error (.isDirectory path.text)
    guarded path (IO.FS.writeFile path.text text)

/-- The environment variables, where the machine lists them. -/
def environment : IO (List (String × String)) := do
  let listing ← try IO.FS.readFile "/proc/self/environ" catch _ => pure ""
  return (listing.splitOn "\x00").filterMap fun entry =>
    match entry.splitOn "=" with
    | name :: value :: more => some (name, "=".intercalate (value :: more))
    | _ => none

end RegionLogic

/-- Runs a command line. -/
def main (arguments : List String) : IO UInt32 := do
  let outcome ← RegionLogic.CommandLine.run (← RegionLogic.environment) arguments
  (← IO.getStdout).putStr outcome.printed
  (← IO.getStderr).putStr outcome.messages
  match outcome.passedOn with
  | some fault => IO.eprintln fault.message
  | none => pure ()
  return outcome.code.toUInt32
