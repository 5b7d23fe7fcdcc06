import RegionLogic.Pattern.Escape
import RegionLogic.Pattern.Options
import RegionLogic.Text.Integer

/-!
# Reading patterns

A pattern is written with the usual operators: `|` between alternatives, `*`, `+`, `?` and `{n,m}`
after an item, classes in brackets, `.` for any character but the newline, `^` and `$` for the ends of
the text, and a backslash before a character with another meaning. Parentheses make groups; a question
mark after the opening one begins a group of another kind: one with a name or without a number, a
comment, a look ahead or behind, an atomic group, a condition on a group or a scope of options.

## Main definitions

* `Pattern.readAlternatives`: the reader of patterns
* `Pattern.read`: the pattern that a text denotes
* `Pattern.anchored`: a text read between the start and the end of the name
-/

namespace RegionLogic.Pattern

/-! ## Classes -/

/-- The item of a member of a class. -/
def Member.item (ascii : Bool) : Member → ClassItem
  | char n => .range n n
  | kind k negated => .kind k ascii negated

/-- Whether an item is a capital letter beyond the first 65536 code points. -/
def isHighCapital : ClassItem → Bool
  | .range m n => m = n && 0xffff < m && Text.smallForm (Char.ofNat m) ≠ Char.ofNat m
  | .kind _ _ _ => false

/-- One character of the given items, or any other if negated. Where case does not matter, a capital
letter beyond the first 65536 code points counts only if it is the one item. -/
def Options.oneOf (o : Options) (negated : Bool) (items : List ClassItem) : Pattern :=
  let items := items.eraseDups
  let counted :=
    if o.cases = .blind && 1 < items.length then items.filter (!isHighCapital ·) else items
  .one { negated := negated, cases := o.cases, items := counted }

/-- A member of a class that was opened when `opened` characters were left, and its token. -/
def readMember (opened : Nat) : Scanner (Member × List Char) := do
  match ← next with
  | [] => throw (.problem "unterminated character set" opened)
  | ['\\', c] => return (← readMemberEscape c, ['\\', c])
  | c :: _ => return (.char c.toNat, [c])

/-- The range between two members, which have to be characters in order. -/
def rangeOf (low high : Member × List Char) : Scanner ClassItem := do
  match low.1, high.1 with
  | .char m, .char n => if m ≤ n then return .range m n
  | _, _ => pure ()
  stop ("bad character range " ++ .ofList low.2 ++ "-" ++ .ofList high.2)
    (low.2.length + 1 + high.2.length)

/-- The items of a class up to its closing bracket, after those in `seen`; a bracket in the first place
is a member. The fuel bounds the number of members. -/
def readClass (ascii : Bool) (opened : Nat) : Nat → List ClassItem → Scanner (List ClassItem)
  | 0, _ => throw (.problem "unterminated character set" opened)
  | fuel + 1, seen => do
    let closed ← if seen.isEmpty then pure false else accept ']'
    if closed then return seen.reverse
    let low ← readMember opened
    if ← accept '-' then
      if ← accept ']' then return (.range 45 45 :: low.1.item ascii :: seen).reverse
      let high ← readMember opened
      readClass ascii opened fuel ((← rangeOf low high) :: seen)
    else readClass ascii opened fuel (low.1.item ascii :: seen)

/-! ## Items and repetitions -/

/-- What may follow an item: an edge cannot be repeated, and a repetition not once more. -/
inductive ItemKind where
  /-- An item that may be repeated. -/
  | plain
  /-- An empty stretch at an edge. -/
  | edge
  | repetition
  deriving DecidableEq

/-- An item that has been read. -/
structure Item where
  /-- What may follow it. -/
  kind : ItemKind
  pattern : Pattern

/-- The item of an escape. -/
def Escape.toItem (o : Options) : Escape → Item
  | member m => ⟨.plain, o.oneOf false [m.item o.ascii]⟩
  | edge p => ⟨.edge, p⟩
  | again p => ⟨.plain, p⟩

/-- The items read so far, last first, one after the other. -/
def sequence (seen : List Item) : Pattern :=
  match seen with
  | [] => .empty
  | i :: is => is.foldl (fun p j => .seq j.pattern p) i.pattern

/-- How often an item is to be repeated. -/
structure Repeat where
  /-- At least so often. -/
  least : Nat
  /-- At most so often, if there is a limit. -/
  most : Option Nat

/-- The digits of the bounds of a repetition between braces, where `cs` follows the opening brace. One
number is both bounds. -/
def boundDigits? (cs : List Char) : Option ((List Char × List Char) × List Char) :=
  let low := cs.takeWhile Json.isDigit
  match cs.drop low.length with
  | ',' :: rest =>
    let high := rest.takeWhile Json.isDigit
    match rest.drop high.length with
    | '\x7d' :: last => some ((low, high), last)
    | _ => none
  | '\x7d' :: last => if low.isEmpty then none else some ((low, low), last)
  | _ => none

/-- The number of repetitions that is too large to be counted. -/
def maxRepeat : Nat := Nat.pow 2 32 - 1

/-- The bound with the given digits; without digits there is none. -/
def boundOf (ds : List Char) : Scanner (Option Nat) := do
  if ds.isEmpty then return none
  if Text.maxDigits < ds.length then throw (.tooManyDigits ds.length)
  if maxRepeat ≤ Json.decimalNumber ds then throw .tooManyRepeats
  return some (Json.decimalNumber ds)

/-- The repetition that `c` begins, which has just been taken. A brace without bounds begins none. -/
def readRepeat? (c : Char) : Scanner (Option Repeat) := do
  if c = '*' then return some ⟨0, none⟩
  else if c = '+' then return some ⟨1, none⟩
  else if c = '?' then return some ⟨0, some 1⟩
  else if c = '\x7b' then
    let here ← left
    match boundDigits? (← get).rest with
    | none => return none
    | some ((low, high), rest) =>
      jump rest
      let least := (← boundOf low).getD 0
      let most ← boundOf high
      if most.any (· < least) then throw (.problem "min repeat greater than max repeat" here)
      return some ⟨least, most⟩
  else return none

/-- The items read so far with the last of them repeated, where `here` characters were left at the
repetition. A question mark after it asks for as few stretches as possible, and a plus sign for as
many as there are if each is the one tried first. -/
def repeatLast (r : Repeat) (here : Nat) (seen : List Item) : Scanner (List Item) := do
  match seen with
  | [] => throw (.problem "nothing to repeat" here)
  | ⟨.edge, _⟩ :: _ => throw (.problem "nothing to repeat" here)
  | ⟨.repetition, _⟩ :: _ => throw (.problem "multiple repeat" here)
  | ⟨.plain, p⟩ :: before =>
    if ← accept '?' then
      return ⟨.repetition, .repeated p r.least r.most false⟩ :: before
    if ← accept '+' then
      return ⟨.repetition, .atomic (.repeated (.atomic p) r.least r.most true)⟩ :: before
    return ⟨.repetition, .repeated p r.least r.most true⟩ :: before

/-! ## Groups -/

/-- What the beginning of a group announces. -/
inductive Opening where
  /-- A comment, which has been left out. -/
  | comment
  /-- The stretch of a group once more. -/
  | again (p : Pattern)
  /-- A group with a number. -/
  | numbered (number : Nat)
  /-- A group without a number, with the options in force inside it. -/
  | plain (o : Options)
  /-- A group whose stretch is tried once only. -/
  | atomic
  | ahead (negated : Bool)
  | behind (negated : Bool)
  /-- A condition on a group. -/
  | condition (number : Nat)

/-- The greatest number of groups. -/
def maxGroups : Nat := Nat.pow 2 30 - 1

/-- The number of a group that a condition asks for, by name or number. A number may stand for a group
that is opened later. -/
def readCondition : Scanner Nat := do
  let name ← nameUntil ')' "group name"
  let number ←
    if Text.isIdentifier name then groupNamed name
    else
      match Text.readInteger (.ofList name) with
      | .ok (.ofNat 0) => stop "bad group number" (name.length + 1)
      | .ok (.ofNat n) =>
        if maxGroups ≤ n then
          stop ("invalid group reference " ++ toString n) (name.length + 1)
        let here := (← left) + name.length + 1
        changeGroups fun g =>
          if Entries.has g.asked n then g else { g with asked := g.asked ++ [(n, here)] }
        pure n
      | _ => stop ("bad character in group name " ++ Text.quoted (.ofList name)) (name.length + 1)
  checkGuard number
  return number

/-- The beginning of a group after `(?P`. -/
def readNamed (o : Options) : Scanner Opening := do
  if ← accept '<' then
    let name ← nameUntil '>' "group name"
    checkGroupName name
    return .numbered (← openGroup (some name))
  if ← accept '=' then
    let name ← nameUntil ')' "group name"
    checkGroupName name
    return .again (← referTo (← groupNamed name) (name.length + 1) o.cases)
  match ← next with
  | [] => stop "unexpected end of pattern"
  | token => stop ("unknown extension ?P" ++ .ofList token) (token.length + 2)

/-- The beginning of a group after `(?<`. -/
def readBehind : Scanner Opening := do
  match ← next with
  | [] => stop "unexpected end of pattern"
  | ['='] => return .behind false
  | ['!'] => return .behind true
  | token => stop ("unknown extension ?<" ++ .ofList token) (token.length + 2)

/-- The beginning of a group that was opened when `opened` characters were left, after its
parenthesis. -/
def readOpening (o : Options) (opened : Nat) : Scanner Opening := do
  if !(← accept '?') then return .numbered (← openGroup none)
  match ← next with
  | [] => stop "unexpected end of pattern"
  | ['P'] => readNamed o
  | [':'] => return .plain o
  | ['#'] =>
    if ← skipPast ')' ((← left) + 1) then return .comment
    else throw (.problem "missing ), unterminated comment" opened)
  | ['='] => return .ahead false
  | ['!'] => return .ahead true
  | ['<'] => readBehind
  | ['('] => return .condition (← readCondition)
  | ['>'] => return .atomic
  | token =>
    if token = ['-'] || (Flag.ofToken? token).isSome then
      return .plain (← readScope o opened token)
    else stop ("unknown extension ?" ++ .ofList token) (token.length + 1)

/-- Stops unless the closing parenthesis of a group follows, which was opened when `opened` characters
were left. -/
def expectClose (opened : Nat) : Scanner Unit := do
  if !(← accept ')') then throw (.problem "missing ), unterminated subpattern" opened)

/-! ## Sequences and alternatives -/

/-- Whether a character is left out where blanks are. -/
def isSpacing (c : Char) : Bool := c ∈ [' ', '\t', '\n', '\r', '\x0b', '\x0c']

mutual

/-- The alternatives up to a closing parenthesis or the end. The fuel bounds the nested calls. -/
def readAlternatives : Nat → Options → Scanner Pattern
  | 0, _ => stop "pattern too deep"
  | fuel + 1, o => do
    let p ← readSequence fuel o []
    if ← accept '|' then return .alt p (← readAlternatives fuel o) else return p

/-- The items up to a bar, a closing parenthesis or the end, after those in `seen`. -/
def readSequence : Nat → Options → List Item → Scanner Pattern
  | 0, _, _ => stop "pattern too deep"
  | fuel + 1, o, seen => do
    let here ← left
    match ← peek with
    | [] => return sequence seen
    | ['|'] => return sequence seen
    | [')'] => return sequence seen
    | ['\\', c] =>
      let _ ← next
      let e ← readEscape o.ascii o.cases c
      readSequence fuel o (e.toItem o :: seen)
    | c :: _ =>
      let _ ← next
      if o.spaced && isSpacing c then readSequence fuel o seen
      else if o.spaced && c = '#' then
        let _ ← skipPast '\n' here
        readSequence fuel o seen
      else if c = '^' then readSequence fuel o (⟨.edge, .start o.eachLine⟩ :: seen)
      else if c = '$' then readSequence fuel o (⟨.edge, .finish o.eachLine⟩ :: seen)
      else if c = '.' then
        readSequence fuel o (⟨.plain, .one (if o.anyChar then .any else .anyInLine)⟩ :: seen)
      else if c = '[' then
        let negated ← accept '^'
        let items ← readClass o.ascii here here []
        readSequence fuel o (⟨.plain, o.oneOf negated items⟩ :: seen)
      else if c = '(' then
        let inner ← readGroup fuel o here
        readSequence fuel o (inner.toList.map (⟨.plain, ·⟩) ++ seen)
      else
        match ← readRepeat? c with
        | some r => readSequence fuel o (← repeatLast r here seen)
        | none => readSequence fuel o (⟨.plain, o.oneOf false [.range c.toNat c.toNat]⟩ :: seen)

/-- The group that was opened when `opened` characters were left, after its parenthesis; a comment is
no item. -/
def readGroup : Nat → Options → Nat → Scanner (Option Pattern)
  | 0, _, _ => stop "pattern too deep"
  | fuel + 1, o, opened => do
    match ← readOpening o opened with
    | .comment => return none
    | .again p => return some p
    | .numbered number =>
      let p ← readAlternatives fuel o
      expectClose opened
      closeGroup number p
      return some (.group number p)
    | .plain inner =>
      let p ← readAlternatives fuel inner
      expectClose opened
      return some p
    | .atomic =>
      let p ← readAlternatives fuel o
      expectClose opened
      return some (.atomic p)
    | .ahead negated =>
      let p ← readAlternatives fuel o
      expectClose opened
      return some (.ahead negated p)
    | .behind negated =>
      let (width, p) ← fixedWidth (readAlternatives fuel o)
      expectClose opened
      return some (.behind negated width p)
    | .condition number =>
      let yes ← readSequence fuel o []
      let no ←
        if ← accept '|' then
          let no ← readSequence fuel o []
          if (← peek) = ['|'] then stop "conditional backref with more than two branches"
          pure no
        else pure .empty
      expectClose opened
      return some (.ifGroup number yes no)

end

/-! ## Whole patterns -/

/-- The reader of a whole pattern. Groups that conditions ask for have to be opened somewhere, and
patterns to be matched backwards need a fixed width. -/
def readWhole : Scanner Pattern := do
  let p ← readAlternatives (4 * (← left) + 4) {}
  if !(← peek).isEmpty then stop "unbalanced parenthesis"
  let groups := (← get).groups
  match groups.asked.find? (groups.opened < ·.1) with
  | some (number, place) =>
    throw (.problem ("invalid group reference " ++ toString number) place)
  | none => return p.forgetGroups

/-- The pattern that a text denotes. -/
def read (source : String) : Except Unreadable Pattern :=
  let cs := source.toList
  match readWhole.run { rest := cs } with
  | .ok (p, s) =>
    match s.groups.widthProblem with
    | some problem => .error (.malformed ⟨problem, none, source⟩)
    | none => .ok p
  | .error (.problem problem left) => .error (.malformed ⟨problem, some (cs.length - left), source⟩)
  | .error .tooManyRepeats => .error .tooManyRepeats
  | .error (.tooManyDigits count) => .error (.tooManyDigits count)

/-- The pattern of a text read between the start and the end of the name. The two anchors are put
around the text as it is written, so in `X|Y` the first belongs to `X` and the second to `Y`. -/
def anchored (source : String) : Except Unreadable Pattern := read ("^" ++ source ++ "$")

end RegionLogic.Pattern
