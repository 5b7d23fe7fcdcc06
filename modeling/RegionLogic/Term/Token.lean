import RegionLogic.Fault

/-!
# Tokens

A term of a clause is a word without blanks. Read as a token it is a constant, a reference `*name`
to a logic object, a projection `term/` of a stateful term, a comparison, or a simple term, which may
have parameters in brackets.

## Main definitions

* `Token`: the tokens
* `Token.write`: the written form
* `Token.read`: the token of a term
* `Token.ofJson`, `Token.ofName`: the token of a value or a name that stands as a term

## Main results

* `Token.readProjected_snoc_slash`: a slash at the end of a term is a projection of what precedes it
-/

namespace RegionLogic

/-- The constants. -/
inductive Constant where
  | true
  | false
  | any
  | none
  deriving DecidableEq

/-- The word of a constant. -/
def Constant.word : Constant → String
  | true => "TRUE"
  | false => "FALSE"
  | any => "ANY"
  | none => "NONE"

/-- The constants in order. -/
def Constant.all : List Constant := [true, false, any, none]

/-- The constant whose word has the given characters. -/
def Constant.ofChars? (cs : List Char) : Option Constant :=
  all.find? (·.word.toList = cs)

/-- The operators of comparisons. -/
inductive Operator where
  | lt
  | gt
  | eq
  deriving DecidableEq

/-- The character of an operator. -/
def Operator.char : Operator → Char
  | lt => '<'
  | gt => '>'
  | eq => '='

/-- The operator that a character stands for. -/
def Operator.ofChar? (c : Char) : Option Operator :=
  if c = '<' then some lt else if c = '>' then some gt else if c = '=' then some eq else none

/-- A term, read. -/
inductive Token where
  | simple (name : String)
  | const (c : Constant)
  /-- A reference to a logic object. -/
  | reference (target : String)
  /-- The projection of a stateful term to a truth value. -/
  | projected (inner : Token)
  | comparison (left : String) (op : Operator) (right : String)
  deriving DecidableEq

namespace Token

/-- The shape of a token. -/
def shape : Token → TokenShape
  | simple _ => .simple
  | const _ => .const
  | reference _ => .reference
  | projected _ => .projected
  | comparison _ _ _ => .comparison

/-- The characters of the written form. -/
def writeChars : Token → List Char
  | simple name => name.toList
  | const c => c.word.toList
  | reference target => '*' :: target.toList
  | projected inner => inner.writeChars ++ ['/']
  | comparison left op right => left.toList ++ op.char :: right.toList

/-- The written form. -/
def write (t : Token) : String := .ofList t.writeChars

/-- Whether a character cannot be part of a term: it separates terms or belongs to an expression
that is not yet split. -/
def isSeparator (c : Char) : Bool :=
  Text.isBlank c || c = '(' || c = ')' || c = '+' || c = '|'

/-- The first operator outside brackets, with what stands before and after it. `depth` counts the
brackets that are open. -/
def splitAtOperator? (depth : Int) : List Char → Option (List Char × Operator × List Char)
  | [] => none
  | c :: cs =>
    if c = '[' then cons c (splitAtOperator? (depth + 1) cs)
    else if c = ']' then cons c (splitAtOperator? (depth - 1) cs)
    else
      match if depth = 0 then Operator.ofChar? c else none with
      | some op => some ([], op, cs)
      | none => cons c (splitAtOperator? depth cs)
where
  /-- One more character before the operator. -/
  cons (c : Char) : Option (List Char × Operator × List Char) →
      Option (List Char × Operator × List Char)
    | some (left, op, right) => some (c :: left, op, right)
    | none => none

/-- The quoted form of a term, for messages. -/
def shown (cs : List Char) : String := Text.quoted (.ofList cs)

/-- The token of a term that does not end in a slash. -/
def readCore (cs : List Char) : Except Fault Token :=
  match Constant.ofChars? cs with
  | some c => .ok (.const c)
  | none =>
    match cs with
    | [] => .error (.term (.notSingle (shown [])))
    | '*' :: target =>
      if target.isEmpty then .error (.term (.noTarget (shown cs)))
      else .ok (.reference (.ofList target))
    | _ =>
      match splitAtOperator? 0 cs with
      | some (left, op, right) =>
        if left.isEmpty || right.isEmpty then .error (.term (.incomplete (shown cs)))
        else .ok (.comparison (.ofList left) op (.ofList right))
      | none => .ok (.simple (.ofList cs))

/-- The token of a term whose characters are all allowed and whose brackets are as many. -/
def readProjected (cs : List Char) : Except Fault Token :=
  if _h : cs.getLast? = some '/' then
    (readProjected cs.dropLast).map .projected
  else readCore cs
termination_by cs.length
decreasing_by
  cases cs with
  | nil => simp at _h
  | cons c cs => simp

/-- The token of a term given by its characters. -/
def readChars (cs : List Char) : Except Fault Token :=
  if cs.isEmpty || cs.any isSeparator then .error (.term (.notSingle (shown cs)))
  else if cs.count '[' ≠ cs.count ']' then .error (.term (.unbalanced (shown cs)))
  else readProjected cs

/-- The token of a term. -/
def read (term : String) : Except Fault Token := readChars term.toList

/-- The token of a value that stands as a term. What is no text is no term; it is told from an empty
term only if it counts as given. -/
def ofJson : Json → Except Fault Token
  | .str term => read term
  | v =>
    if v.isTruthy then .error (.shape (.notText v.shape))
    else .error (.term (.notSingle v.display))

/-- The token of a name that stands as a term. -/
def ofName (a : Name) : Except Fault Token := ofJson a.toJson

@[simp] theorem ofName_text (term : String) : ofName (.text term) = read term := rfl

/-- A slash at the end of a term is a projection of what precedes it. -/
theorem readProjected_snoc_slash (cs : List Char) :
    readProjected (cs ++ ['/']) = (readProjected cs).map .projected := by
  rw [readProjected]
  simp

/-- A term that does not end in a slash is no projection. -/
theorem readProjected_of_getLast?_ne {cs : List Char} (h : cs.getLast? ≠ some '/') :
    readProjected cs = readCore cs := by
  rw [readProjected]
  simp [h]

@[simp] theorem toList_write (t : Token) : t.write.toList = t.writeChars := String.toList_ofList

end Token

end RegionLogic
