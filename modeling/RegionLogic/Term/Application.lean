import RegionLogic.Term.Token

/-!
# Terms with parameters

A simple term may carry parameters: `head[arg,arg]`. A term without brackets is its own head.

## Main definitions

* `Application`: a head and its arguments
* `Application.write`: the written form
* `Application.read`: the head and the arguments of a term
* `modifierHead`: the head by which modifiers are compared
-/

namespace RegionLogic

/-- A head and its arguments. -/
structure Application where
  head : String
  /-- The arguments, none of them empty. -/
  args : List String
  deriving DecidableEq

namespace Application

/-- The pieces of `cs` between commas. -/
def splitCommas : List Char → List (List Char)
  | [] => [[]]
  | c :: cs =>
    if c = ',' then [] :: splitCommas cs
    else
      match splitCommas cs with
      | [] => [[c]]
      | piece :: pieces => (c :: piece) :: pieces

/-- The arguments between brackets; empty ones do not count. -/
def argsOf (cs : List Char) : List String :=
  ((splitCommas cs).filter (!·.isEmpty)).map .ofList

/-- The head and the arguments of a term given by its characters. A term with brackets has to begin
with its head, and its first closing bracket has to follow the first opening one and end it. -/
def readChars (cs : List Char) : Except Fault Application :=
  let head := cs.takeWhile (· ≠ '[')
  match cs.dropWhile (· ≠ '[') with
  | [] =>
    if ']' ∈ cs then .error (.term (.misplacedBrackets (Token.shown cs)))
    else .ok ⟨.ofList cs, []⟩
  | _ :: rest =>
    let inner := rest.takeWhile (· ≠ ']')
    match rest.dropWhile (· ≠ ']') with
    | [_] =>
      if head.isEmpty || ']' ∈ head then .error (.term (.misplacedBrackets (Token.shown cs)))
      else .ok ⟨.ofList head, argsOf inner⟩
    | _ => .error (.term (.misplacedBrackets (Token.shown cs)))

/-- The head and the arguments of a term. -/
def read (term : String) : Except Fault Application := readChars term.toList

/-- The written form: the head alone if there are no arguments. -/
def write (a : Application) : String :=
  if a.args.isEmpty then a.head else a.head ++ "[" ++ ",".intercalate a.args ++ "]"

end Application

/-- The head by which modifiers are compared; a term that is not simple is its own head. -/
def modifierHead (term : Name) : Except Fault String := do
  match ← Token.ofName term with
  | .simple name => return (← Application.read name).head
  | _ => return term.spelling

end RegionLogic
