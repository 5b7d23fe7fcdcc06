import RegionLogic.Text.Digit
import RegionLogic.Text.Quoted

/-!
# Command line grammars

A command line consists of switches, which begin with a hyphen and may take words, and of other words
for an operand. A long switch may be cut short as long as it stays unique, and short switches may be
written as one word. After the word `--` nothing is a switch.

## Main definitions

* `Switch`, `Operand`, `Grammar`: what a command line may hold
* `Grammar.readWord`: the role of a word
* `Grammar.parse`: the given arguments of a command line
-/

namespace RegionLogic.CommandLine

/-- What a switch takes. -/
inductive SwitchArity where
  | none
  | one
  /-- One or more words. -/
  | some
  deriving DecidableEq

/-- A switch. -/
structure Switch where
  /-- Its names; the last one is the name under which its words are found. -/
  names : List String
  arity : SwitchArity := .none
  /-- Whether nothing after it counts. -/
  ends : Bool := false
  deriving DecidableEq

/-- The name under which the words of a switch are found. -/
def Switch.key (s : Switch) : String := s.names.getLast?.getD ""

/-- The wording of a problem with a switch. -/
def Switch.problem (s : Switch) (text : String) : String :=
  "argument " ++ "/".intercalate s.names ++ ": " ++ text

/-- What an operand takes. -/
inductive OperandArity where
  /-- At most one word. -/
  | atMostOne
  /-- One or more words. -/
  | some
  /-- A command and everything after it. -/
  | command (choices : List String)
  deriving DecidableEq

/-- The words that are no switches. -/
structure Operand where
  name : String
  arity : OperandArity
  deriving DecidableEq

/-- What a command line may hold. -/
structure Grammar where
  program : String
  switches : List Switch
  operand : Option Operand := none
  deriving DecidableEq

/-! ## Words -/

/-- A word that begins like a switch. -/
structure Call where
  text : String
  /-- The switch; an unknown one is kept as it is. -/
  switch : Option Switch := none
  /-- The name by which it is called. -/
  name : String := ""
  /-- What is attached to the name, by an equals sign or directly. -/
  attached : Option (List Char) := none

/-- The roles of words. -/
inductive Word where
  /-- A word for an operand or a switch. -/
  | plain (text : String)
  /-- The word after which nothing is a switch. -/
  | separator
  | call (c : Call)

/-- The word as it was written. -/
def Word.text : Word → String
  | plain text => text
  | separator => "--"
  | call c => c.text

/-- Whether a word is a switch. -/
def Word.isCall : Word → Bool
  | call _ => true
  | _ => false

/-- Whether a word is plain. -/
def Word.isPlain : Word → Bool
  | plain _ => true
  | _ => false

/-- Whether characters are a number without its sign. -/
def isNumber (cs : List Char) : Bool :=
  let rest := cs.dropWhile Text.isDecimalDigit
  match rest with
  | [] => !cs.isEmpty
  | '.' :: decimals => !decimals.isEmpty && decimals.all Text.isDecimalDigit
  | _ => false

/-- Whether characters after a hyphen make the word a negative number; a line break may end it. -/
def isNegated (cs : List Char) : Bool :=
  isNumber cs || (cs.getLast? = some '\n' && isNumber cs.dropLast)

namespace Grammar

/-- All names of switches with their switches. -/
def spellings (g : Grammar) : List (String × Switch) :=
  g.switches.flatMap fun s => s.names.map (·, s)

/-- The switch of a name. -/
def switch? (g : Grammar) (name : String) : Option Switch :=
  (g.spellings.find? (·.1 = name)).map (·.2)

/-- The switches that a word may stand for: those whose long names it begins, or the short one that it
begins with. -/
def candidates (g : Grammar) (text : String) : List Call :=
  match text.toList with
  | '-' :: '-' :: cs =>
    let name := '-' :: '-' :: cs.takeWhile (· ≠ '=')
    let attached :=
      match cs.dropWhile (· ≠ '=') with
      | [] => none
      | _ :: value => some value
    (g.spellings.filter fun s => name.isPrefixOf s.1.toList).map fun s =>
      { text, switch := s.2, name := s.1, attached }
  | cs =>
    g.spellings.filterMap fun s =>
      if s.1.toList = cs.take 2 then
        some { text, switch := s.2, name := s.1, attached := some (cs.drop 2) }
      else if cs.isPrefixOf s.1.toList then some { text, switch := s.2, name := s.1 }
      else none

/-- The call of a switch by its full name, with what an equals sign attaches to it. -/
def exactCall? (g : Grammar) (text : String) : Option Call :=
  match g.switch? text with
  | some s => some { text, switch := s, name := text }
  | none =>
    let cs := text.toList
    let name := String.ofList (cs.takeWhile (· ≠ '='))
    match cs.dropWhile (· ≠ '='), g.switch? name with
    | _ :: value, some s => some { text, switch := s, name, attached := some value }
    | _, _ => none

/-- The role of a word before the separator. A lone hyphen, a negative number and an unknown word with
a space are no switches. -/
def readWord (g : Grammar) (text : String) : Except String Word :=
  match text.toList with
  | '-' :: cs =>
    match g.exactCall? text with
    | some c => .ok (.call c)
    | none =>
      if cs.isEmpty then .ok (.plain text)
      else
        match g.candidates text with
        | [c] => .ok (.call c)
        | [] =>
          if isNegated cs || ' ' ∈ cs then .ok (.plain text) else .ok (.call { text })
        | several =>
          .error ("ambiguous option: " ++ text ++ " could match " ++
            ", ".intercalate (several.map (·.name)))
  | _ => .ok (.plain text)

/-- The roles of the words of a command line. -/
def readWords (g : Grammar) : List String → Except String (List Word)
  | [] => .ok []
  | text :: texts =>
    if text = "--" then .ok (.separator :: texts.map .plain)
    else do
      let word ← g.readWord text
      return word :: (← readWords g texts)

end Grammar

/-! ## Arguments -/

/-- The words given for a switch or an operand. -/
structure Given where
  /-- The name of the switch or operand. -/
  key : String
  words : List String
  deriving DecidableEq

/-- What has been read of a command line. -/
structure Parsed where
  /-- The arguments in order. -/
  given : List Given := []
  /-- The words that belong to nothing. -/
  extra : List String := []
  /-- The switch after which nothing counts. -/
  ended : Option String := none

/-- The number of words that a switch takes from those that follow it. -/
def Switch.count (s : Switch) (words : List Word) : Except String Nat :=
  match s.arity with
  | .none => .ok 0
  | .one =>
    if words.head?.any (·.isPlain) then .ok 1 else .error (s.problem "expected one argument")
  | .some =>
    match (words.takeWhile (·.isPlain)).length with
    | 0 => .error (s.problem "expected at least one argument")
    | n => .ok n

/-- The number of words that an operand takes from those that come next, if it can take any. -/
def Operand.count (o : Operand) (words : List Word) : Nat :=
  let separators := (words.takeWhile fun w => !w.isPlain && !w.isCall).length
  let rest := words.drop separators
  match o.arity with
  | .atMostOne =>
    let after := if rest.head?.any (·.isPlain) then 1 else 0
    separators + after +
      ((rest.drop after).takeWhile fun w => !w.isPlain && !w.isCall).length
  | .some =>
    if rest.head?.any (·.isPlain) then separators + (rest.takeWhile (!·.isCall)).length else 0
  | .command _ => if rest.head?.any (·.isPlain) then words.length else 0

/-- The argument that words make for an operand. The separator is not part of it, unless everything
after a command is wanted. -/
def Operand.given (o : Operand) (texts : List String) : Except String (List Given) :=
  match o.arity with
  | .command choices =>
    match texts with
    | [] => .ok []
    | first :: _ =>
      if first ∈ choices then .ok [⟨o.name, texts⟩]
      else
        .error ("argument " ++ o.name ++ ": invalid choice: " ++ Text.quoted first ++
          " (choose from " ++ ", ".intercalate (choices.map Text.quoted) ++ ")")
  | _ =>
    match texts.erase "--" with
    | [] => .ok []
    | words => .ok [⟨o.name, words⟩]

/-- A word of short switches, taken apart. -/
structure Chain where
  /-- The switches with what is attached to them. -/
  given : List (Switch × List String)
  /-- The last switch, if nothing is attached to it. -/
  last : Option Switch := none

/-- Takes a word apart in which something is attached to a switch. What is attached to a short switch
that takes no words is read as further short switches. A separator that is attached to a switch leaves
it without words. -/
def Grammar.takeApart (g : Grammar) (s : Switch) (name : String) (attached : List Char) :
    Except String Chain :=
  let ignored : Except String Chain :=
    .error (s.problem ("ignored explicit argument " ++ Text.quoted (.ofList attached)))
  if s.arity ≠ .none then .ok { given := [(s, [String.ofList attached].erase "--")] }
  else if name.startsWith "--" then ignored
  else
    match attached with
    | [] => ignored
    | c :: cs =>
      let next := String.ofList ['-', c]
      match g.switch? next with
      | none => ignored
      | some t =>
        match cs with
        | [] => .ok { given := [(s, [])], last := t }
        | more => do
          let chain ← takeApart g t next more
          return { chain with given := (s, []) :: chain.given }
termination_by attached.length

/-- What is read after further switches with their words. The first one that ends the command line
counts. -/
def Parsed.add (p : Parsed) (given : List (Switch × List String)) : Parsed where
  given := p.given ++ given.map fun s => ⟨s.1.key, s.2⟩
  extra := p.extra
  ended := p.ended.or ((given.find? (·.1.ends)).map (·.1.key))

namespace Grammar

/-- Reads a switch, and returns the number of words that it takes from those that follow it. -/
def readCall (g : Grammar) (c : Call) (words : List Word) (p : Parsed) :
    Except String (Parsed × Nat) := do
  match c.switch with
  | none => return ({ p with extra := p.extra ++ [c.text] }, 0)
  | some s =>
    let chain ←
      match c.attached with
      | none => pure { given := [], last := s }
      | some attached => g.takeApart s c.name attached
    match chain.last with
    | none => return (p.add chain.given, 0)
    | some s =>
      let n ← s.count words
      return (p.add (chain.given ++ [(s, (words.take n).map (·.text))]), n)

/-- Reads the words of a command line from the first on. `operand` is the operand that has not been
given yet. -/
def readFrom (g : Grammar) (operand : Option Operand) (p : Parsed) :
    List Word → Except String Parsed
  | [] => .ok p
  | .call c :: words => do
    let (p, n) ← g.readCall c words p
    if p.ended.isSome then return p
    readFrom g operand p (words.drop n)
  | word :: words =>
    match operand with
    | none => readFrom g none { p with extra := p.extra ++ [word.text] } words
    | some o =>
      match o.count (word :: words) with
      | 0 => readFrom g operand { p with extra := p.extra ++ [word.text] } words
      | n + 1 => do
        let given ← o.given (((word :: words).take (n + 1)).map (·.text))
        readFrom g none { p with given := p.given ++ given } (words.drop n)
termination_by words => words.length
decreasing_by all_goals grind

/-- The given arguments of a command line. An operand that takes one or more words has to be
there. -/
def parse (g : Grammar) (texts : List String) : Except String Parsed := do
  let p ← g.readFrom g.operand {} (← g.readWords texts)
  if p.ended.isSome then return p
  match g.operand with
  | some ⟨name, .some⟩ =>
    if p.given.all (·.key ≠ name) then
      throw ("the following arguments are required: " ++ name)
    else return p
  | _ => return p

end Grammar

namespace Parsed

/-- The words given last for a switch or an operand. -/
def words? (p : Parsed) (key : String) : Option (List String) :=
  (p.given.reverse.find? (·.key = key)).map (·.words)

/-- The word given last for a switch or an operand. -/
def word? (p : Parsed) (key : String) : Option String := (p.words? key).bind (·.head?)

/-- The number of times that a switch is given. -/
def times (p : Parsed) (key : String) : Nat := p.given.countP (·.key = key)

/-- The texts given for a switch that takes one word, in order. A switch that is left without words
counts as the text of an empty list. -/
def allTexts (p : Parsed) (key : String) : List String :=
  (p.given.filter (·.key = key)).map fun g => g.words.head?.getD "[]"

end Parsed

end RegionLogic.CommandLine
