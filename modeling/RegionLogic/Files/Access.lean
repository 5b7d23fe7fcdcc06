import RegionLogic.Fault
import RegionLogic.Files.Path

/-!
# Access to files

What the program asks of the place where files are kept. Texts are read with every kind of line end
turned into a line feed, and written as they are.

## Main definitions

* `FileAccess`: the operations
* `Text.unifyLines`: a text with unified line ends
-/

namespace RegionLogic

/-- The operations on files. -/
class FileAccess (m : Type → Type) where
  /-- The current directory, as an absolute path. -/
  currentDirectory : m Path
  /-- Whether a path leads to a file. -/
  isFile : Path → m Bool
  /-- The text of a file. -/
  readText : Path → m (Except Fault String)
  /-- Makes a directory and all directories above it, where they are not there. -/
  makeDirectories : Path → m (Except Fault Unit)
  /-- Writes a text to a file. -/
  writeText : Path → String → m (Except Fault Unit)

/-- The characters with every line end turned into a line feed. -/
def Text.unifyLineChars : List Char → List Char
  | '\r' :: '\n' :: cs => '\n' :: unifyLineChars cs
  | '\r' :: cs => '\n' :: unifyLineChars cs
  | c :: cs => c :: unifyLineChars cs
  | [] => []

/-- A text with every line end turned into a line feed. -/
def Text.unifyLines (s : String) : String := .ofList (unifyLineChars s.toList)

end RegionLogic
