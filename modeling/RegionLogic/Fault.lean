import RegionLogic.Name
import RegionLogic.Pattern.Reader
import RegionLogic.Toml.Reader

/-!
# Faults

Everything that can go wrong, by its cause. The wording of a fault is a function of the cause.

## Main definitions

* `TermFault`, `RelabelFault`, `PlacementFault`: the causes of the larger parts of the program
* `Fault`: all causes
* `Fault.message`: the wording
-/

namespace RegionLogic

/-- The shapes of tokens, for messages about a token of the wrong shape. -/
inductive TokenShape where
  | simple
  | const
  /-- A reference to a logic object. -/
  | reference
  /-- The projection of a stateful term. -/
  | projected
  | comparison
  deriving DecidableEq

/-- The name of a token shape in messages. -/
def TokenShape.name : TokenShape → String
  | simple => "SimpleToken"
  | const => "ConstToken"
  | reference => "ReferenceToken"
  | projected => "ProjectedToken"
  | comparison => "ComparisonToken"

/-- What is wrong with a term. A term is given in its quoted form, since a value that is no text can
stand in its place. -/
inductive TermFault where
  /-- The term is empty or holds blanks or operators. -/
  | notSingle (shown : String)
  /-- The term has not as many closing brackets as opening ones. -/
  | unbalanced (shown : String)
  /-- A reference names nothing. -/
  | noTarget (shown : String)
  /-- A comparison lacks a side. -/
  | incomplete (shown : String)
  /-- The brackets of a parameter list are misplaced. -/
  | misplacedBrackets (shown : String)
  /-- A token of this shape provides no state. -/
  | notProvider (shape : TokenShape) (shown : String)
  deriving DecidableEq

/-- The wording of a term fault. -/
def TermFault.message : TermFault → String
  | notSingle shown => "Not a single term: " ++ shown
  | unbalanced shown => "Unbalanced brackets in term: " ++ shown
  | noTarget shown => "Reference without a target: " ++ shown
  | incomplete shown => "Incomplete comparison: " ++ shown
  | misplacedBrackets shown => "Not a valid term to find prefix: " ++ shown
  | notProvider shape shown =>
    "Tokens of type " ++ shape.name ++ " are not valid region parents: " ++ shown

/-- Why a region cannot become the start region. -/
inductive RelabelFault where
  /-- It is the start region. -/
  | alreadyStart
  /-- There is no such region. -/
  | unknownRegion (name : Name)
  /-- It holds exits, locations or transitions. -/
  | ownsChildren (name : Name)
  deriving DecidableEq

/-- The wording of a relabelling fault. -/
def RelabelFault.message : RelabelFault → String
  | alreadyStart => "Menu is already the start region"
  | unknownRegion name => "Cannot label unknown region " ++ name.spelling ++ " as Menu"
  | ownsChildren name =>
    "Should not merge state region " ++ name.spelling ++ " into Menu with any child objects"

/-- The things that are placed in regions. -/
inductive Placed where
  | transitions
  | locations
  deriving DecidableEq

/-- The name of a kind of placed things in messages. -/
def Placed.name : Placed → String
  | transitions => "transitions"
  | locations => "locations"

/-- What is wrong with the placement of locations or transitions. -/
inductive PlacementFault where
  /-- Some names are placed more than once; each comes with the regions that hold it. -/
  | duplicated (kind : Placed) (names : List (Name × List Name))
  /-- Some names are placed and not declared, or declared and not placed. -/
  | mismatched (kind : Placed) (names : List Name)
  deriving DecidableEq

/-- The wording of a placement fault. -/
def PlacementFault.message : PlacementFault → String
  | duplicated kind names =>
    "The following " ++ kind.name ++ " appeared in multiple regions: " ++
      ", ".intercalate (names.map fun n =>
        n.1.spelling ++ " (in " ++ ", ".intercalate (n.2.map (·.spelling)) ++ ")")
  | mismatched kind names =>
    "Expected declared " ++ kind.name ++ " to exactly match placed " ++ kind.name ++
      ", but the following were not matched: " ++ ", ".intercalate (names.map (·.spelling))

/-- The sets of words that settings and world files choose from. -/
inductive Vocabulary where
  /-- How a logic object is placed. -/
  | handling
  /-- How an argument rule compares. -/
  | comparison
  /-- The effect of a modifier. -/
  | kind
  deriving DecidableEq

/-- The name of a vocabulary in messages. -/
def Vocabulary.name : Vocabulary → String
  | handling => "LogicHandling"
  | comparison => "ArgumentComparison"
  | kind => "ModifierKind"

/-- A value that has the wrong kind for what is done with it. -/
inductive ShapeFault where
  /-- It has no items. -/
  | notIterable (shape : Shape)
  /-- It has no named fields to be read by name. -/
  | notSubscriptable (shape : Shape)
  /-- It cannot be a member of a set. -/
  | unhashable (shape : Shape)
  /-- It is no term. -/
  | notText (shape : Shape)
  /-- Members of these kinds have no common order. -/
  | unordered (left right : Shape)
  /-- It is no number. -/
  | notNumber (shape : Shape)
  /-- It is no path. -/
  | notPath (shape : Shape)
  /-- It cannot be joined to a path. -/
  | notPathPart (shape : Shape)
  /-- An item of a list of texts is none. -/
  | itemNotText (index : Nat) (shape : Shape)
  /-- It is no pair of a key and a value. -/
  | notPair (index : Nat)
  /-- It is nothing that a text can begin or end with; `operation` names the test. -/
  | notAffix (operation : String) (shape : Shape)
  /-- It takes no named values. -/
  | notAssignable (shape : Shape)
  deriving DecidableEq

/-- The wording of a shape fault. -/
def ShapeFault.message : ShapeFault → String
  | notIterable shape => "'" ++ shape.name ++ "' object is not iterable"
  | notSubscriptable .str => "string indices must be integers, not 'str'"
  | notSubscriptable .arr => "list indices must be integers or slices, not str"
  | notSubscriptable shape => "'" ++ shape.name ++ "' object is not subscriptable"
  | unhashable shape => "unhashable type: '" ++ shape.name ++ "'"
  | notText shape => "expected string or bytes-like object, got '" ++ shape.name ++ "'"
  | unordered left right =>
    "'<' not supported between instances of '" ++ left.name ++ "' and '" ++ right.name ++ "'"
  | notNumber shape =>
    "int() argument must be a string, a bytes-like object or a real number, not '" ++
      shape.name ++ "'"
  | notPath shape =>
    "expected str, bytes or os.PathLike object, not " ++ shape.name
  | notPathPart shape =>
    "unsupported operand type(s) for /: 'PosixPath' and '" ++ shape.name ++ "'"
  | itemNotText index shape =>
    "sequence item " ++ toString index ++ ": expected str instance, " ++ shape.name ++ " found"
  | notPair index =>
    "cannot convert dictionary update sequence element #" ++ toString index ++ " to a sequence"
  | notAffix operation shape =>
    operation ++ " first arg must be str or a tuple of str, not " ++ shape.name
  | notAssignable .arr => "list indices must be integers or slices, not str"
  | notAssignable shape => "'" ++ shape.name ++ "' object does not support item assignment"

/-- A cause of failure. -/
inductive Fault where
  /-- A term is malformed. -/
  | term (cause : TermFault)
  /-- A region cannot become the start region. -/
  | relabel (cause : RelabelFault)
  /-- Locations or transitions are misplaced. -/
  | placement (causes : List PlacementFault)
  /-- References run in circles. -/
  | cyclic (cycles : List (List Name))
  /-- A word is not in its vocabulary. -/
  | notInVocabulary (vocabulary : Vocabulary) (shown : String)
  /-- A word is no kind of modifier. -/
  | unknownKind (shown : String)
  /-- A text is no integer. -/
  | notInteger (shown : String)
  /-- A float that is no number has no integer part. -/
  | nanToInteger
  /-- An infinite float has no integer part. -/
  | infinityToInteger
  /-- A setting has to be an integer. -/
  | settingNotInteger (name shown : String)
  /-- An object compares itself in a clause. -/
  | comparesItself (name : Name) (clause : String)
  /-- An object requires itself in a clause. -/
  | requiresItself (name : Name) (clause : String)
  /-- A walk does not return to a name. -/
  | notCycle (walk : String)
  /-- A file holds no world. -/
  | notWorld (path : String)
  /-- A file holds no list of names. -/
  | notNames (path : String)
  /-- No world is given. -/
  | noWorld
  /-- A name to be removed is not in the list. -/
  | notListed
  /-- An item of a table given as a list of pairs has another length than two. -/
  | pairLength (index length : Nat)
  /-- A required name is missing. -/
  | missingKey (key : Name)
  /-- An empty walk has no last node. -/
  | emptyWalk
  /-- A file or directory is missing. -/
  | missingFile (path : String)
  /-- A directory stands where a file is needed. -/
  | isDirectory (path : String)
  /-- A file stands where a directory is needed. -/
  | notDirectory (path : String)
  /-- A file stands where a directory is to be made. -/
  | fileExists (path : String)
  /-- A path holds a null character. -/
  | nullInPath
  /-- A JSON text is malformed. -/
  | json (cause : Json.Malformed)
  /-- A value is too large to be read. -/
  | excess (cause : Json.Excess)
  /-- A settings document is malformed. -/
  | settings (cause : Toml.Malformed)
  /-- A value cannot be written as a setting. -/
  | unwritable (problem : String)
  /-- A pattern is unreadable. -/
  | pattern (cause : Pattern.Unreadable)
  /-- A value has the wrong kind. -/
  | shape (cause : ShapeFault)
  /-- A value of this kind has no such operation. -/
  | noOperation (shape : Shape) (operation : String)
  /-- A name on a walk belongs to no node. -/
  | noNode
  /-- An exit that is to be changed does not exist. -/
  | noExit
  deriving DecidableEq

/-- The fault of a text without a value. -/
def Fault.ofUnreadable : Json.Unreadable → Fault
  | .malformed cause => .json cause
  | .excess cause => .excess cause

/-- The wording of a fault. -/
def Fault.message : Fault → String
  | term cause => cause.message
  | relabel cause => cause.message
  | placement causes =>
    "One or more validation errors have occurred:\n" ++
      "\n".intercalate (causes.map (·.message))
  | cyclic cycles =>
    "Cyclic waypoint references detected: " ++
      "; ".intercalate (cycles.map fun names => " -> ".intercalate (names.map (·.spelling)))
  | notInVocabulary vocabulary shown => shown ++ " is not a valid " ++ vocabulary.name
  | unknownKind shown => "Unknown modifier classification: " ++ shown
  | notInteger shown => "invalid literal for int() with base 10: " ++ shown
  | nanToInteger => "cannot convert float NaN to integer"
  | infinityToInteger => "cannot convert float infinity to integer"
  | settingNotInteger name shown => name ++ " must be an integer, got " ++ shown
  | comparesItself name clause =>
    "Unexpected comparison self-reference to " ++ name.spelling ++ " in " ++ clause
  | requiresItself name clause =>
    "Unexpected boolean self-reference to " ++ name.spelling ++ " in " ++ clause
  | notCycle walk => "Path " ++ walk ++ " is not a cycle"
  | notWorld path => path ++ " is not a world definition: missing 'LogicObjects'"
  | notNames path => path ++ " must contain a JSON array of strings"
  | noWorld => "No world definition given; pass WORLD or set input.world"
  | notListed => "list.remove(x): x not in list"
  | pairLength index length =>
    "dictionary update sequence element #" ++ toString index ++ " has length " ++
      toString length ++ "; 2 is required"
  | missingKey key => key.display
  | emptyWalk => "list index out of range"
  | missingFile path => "[Errno 2] No such file or directory: " ++ Text.quoted path
  | isDirectory path => "[Errno 21] Is a directory: " ++ Text.quoted path
  | notDirectory path => "[Errno 20] Not a directory: " ++ Text.quoted path
  | fileExists path => "[Errno 17] File exists: " ++ Text.quoted path
  | nullInPath => "embedded null byte"
  | json cause => cause.message
  | excess cause => cause.message
  | settings cause => cause.message
  | unwritable problem => problem
  | pattern cause => cause.message
  | shape cause => cause.message
  | noOperation kind operation =>
    "'" ++ kind.name ++ "' object has no attribute " ++ Text.quoted operation
  | noNode => "'NoneType' object has no attribute 'name'"
  | noExit => "'NoneType' object has no attribute 'logic'"

end RegionLogic
