import RegionLogic.Entries
import RegionLogic.Pattern.Class

/-!
# Patterns

Waypoints to inline are chosen by patterns over their names. A pattern matches stretches of a text. Its
meaning is the list of the places at which a stretch that begins at a given place can end, in the order
in which they are tried: a place is a position in the text together with the stretches that groups have
matched so far, as later parts of a pattern may refer to them.

## Main definitions

* `Pattern`: the patterns
* `Pattern.Place`: a position and the stretches of groups
* `Pattern.ends`: where matches that begin at one of some places can end
* `Pattern.matchesStart`: whether some stretch at the start of a text is matched
* `Pattern.matchesWhole`: whether the whole text is matched
-/

namespace RegionLogic

/-- A pattern. -/
inductive Pattern where
  | empty
  /-- One character of a class. -/
  | one (k : CharClass)
  /-- The empty stretch at the start of the text, or at the start of any line on request. -/
  | start (eachLine : Bool)
  /-- The empty stretch at the end of the text or before a newline that ends it, or at the end of any
  line on request. -/
  | finish (eachLine : Bool)
  /-- The empty stretch at the very end of the text. -/
  | textEnd
  /-- The empty stretch between a word character and anything else, or at any other place of a text
  that is not empty if negated. -/
  | wordEdge (negated ascii : Bool)
  /-- A stretch of the first pattern and one of the second after it. -/
  | seq (first second : Pattern)
  /-- A stretch of either pattern. -/
  | alt (first second : Pattern)
  /-- At least `least` and at most `most` stretches one after the other, as many as possible or as
  few as possible. -/
  | repeated (p : Pattern) (least : Nat) (most : Option Nat) (greedy : Bool)
  /-- A stretch of a pattern, to which later parts may refer by the number of the group. -/
  | group (number : Nat) (p : Pattern)
  /-- The stretch of a group once more. -/
  | reference (number : Nat) (cases : CaseRule)
  /-- The stretch of a pattern that is tried first, and no other. -/
  | atomic (p : Pattern)
  /-- The empty stretch where a stretch of a pattern begins, or where none begins if negated. -/
  | ahead (negated : Bool) (p : Pattern)
  /-- The empty stretch where a stretch of a pattern that has `width` characters ends, or where none
  ends if negated. -/
  | behind (negated : Bool) (width : Nat) (p : Pattern)
  /-- A stretch of one or the other pattern, by whether a group has matched. -/
  | ifGroup (number : Nat) (yes no : Pattern)
  deriving DecidableEq

namespace Pattern

/-! ## Places -/

/-- A position in a text, and the stretches that groups have matched so far. -/
structure Place where
  /-- The number of characters before the position. -/
  offset : Nat
  /-- The groups with their stretches, each from a position to another. -/
  groups : List (Nat × Nat × Nat) := []
  deriving DecidableEq

/-- The place with the stretch of a group that begins at `first` and ends here. -/
def Place.close (s : Place) (number first : Nat) : Place :=
  { s with groups := Entries.set s.groups number (first, s.offset) }

/-- Whether position `i` separates a word character from anything else. -/
def isWordEdge (text : Array Char) (ascii : Bool) (i : Nat) : Bool :=
  let before := if i = 0 then false else (text[i - 1]?).any (CharKind.word.holds ascii)
  before != (text[i]?).any (CharKind.word.holds ascii)

/-- Whether a line ends at position `i`: the last line, or on request any. -/
def isFinish (text : Array Char) (eachLine : Bool) (i : Nat) : Bool :=
  i = text.size || (text[i]? = some '\n' && (eachLine || i + 1 = text.size))

/-- Whether a line begins at position `i`: the first line, or on request any. -/
def isStart (text : Array Char) (eachLine : Bool) (i : Nat) : Bool :=
  i = 0 || (eachLine && text[i - 1]? = some '\n')

/-- Whether the stretch of `length` characters at `first` occurs at `i` once more. -/
def occursAt (text : Array Char) (cases : CaseRule) (first length i : Nat) : Bool :=
  (List.range length).all fun k =>
    match text[first + k]?, text[i + k]? with
    | some c, some d => cases.fold c = cases.fold d
    | _, _ => false

/-! ## Repetitions -/

/-- What a search has found: the places in the order in which they are tried, last first, and the places
that it has gone on from, each with the number of repetitions left. Both are kept by position too. -/
structure Found where
  /-- The places found, last first. -/
  places : List Place
  /-- The places found at each position. -/
  placesAt : Array (List Place)
  /-- The places gone on from at each position. -/
  visitedAt : Array (List (Place × Nat))

namespace Found

/-- Nothing found in a text of the given size. -/
def nothing (size : Nat) : Found where
  places := []
  placesAt := .replicate (size + 1) []
  visitedAt := .replicate (size + 1) []

/-- Whether a place has been found. -/
def has (f : Found) (s : Place) : Bool := s ∈ f.placesAt.getD s.offset []

/-- The places found with one more. -/
def add (f : Found) (s : Place) : Found :=
  if f.has s then f
  else { f with places := s :: f.places, placesAt := f.placesAt.modify s.offset (s :: ·) }

/-- Whether a place with this number of repetitions left has been gone on from. -/
def hasVisited (f : Found) (s : Place) (left : Nat) : Bool :=
  (s, left) ∈ f.visitedAt.getD s.offset []

/-- The search with one more place gone on from. -/
def visit (f : Found) (s : Place) (left : Nat) : Found :=
  { f with visitedAt := f.visitedAt.modify s.offset ((s, left) :: ·) }

end Found

/-- The places without those that occur earlier. -/
def distinct (size : Nat) : List Place → List Place
  | [] => []
  | [s] => [s]
  | l => (l.foldl Found.add (.nothing size)).places.reverse

/-- Goes on from a place with at most `left` further stretches, where `body` gives the ends of one. A
stretch that is empty ends the repetition, so beyond it there are no more of them than characters
left. -/
def search (body : Place → List Place) (greedy : Bool) (size : Nat) : Nat → Place → Found → Found
  | 0, s, f => f.add s
  | left + 1, s, f =>
    let useful := min (left + 1) (size - s.offset + 1)
    if f.hasVisited s useful then f
    else
      let more (f : Found) := (body s).foldl (fun f t =>
        if s.offset < t.offset then search body greedy size left t f else f.add t) f
      let f := f.visit s useful
      if greedy then (more f).add s else more (f.add s)

/-- `f` applied `n` times to `x`. -/
def iterate {α : Type} (f : α → α) : Nat → α → α
  | 0, x => x
  | n + 1, x => iterate f n (f x)

/-! ## Matches -/

/-- The number of groups in a pattern. -/
def groupCount : Pattern → Nat
  | seq p q => groupCount p + groupCount q
  | alt p q => groupCount p + groupCount q
  | repeated p _ _ _ => groupCount p
  | group _ p => groupCount p + 1
  | atomic p => groupCount p
  | ahead _ p => groupCount p
  | behind _ _ p => groupCount p
  | ifGroup _ yes no => groupCount yes + groupCount no
  | _ => 0

/-- The places at which a stretch that begins at one of the given places and is matched by the pattern
can end, in the order in which they are tried. Of many repetitions all but as many as there are
characters are empty, and an empty one changes something only while there are groups left that have not
matched. -/
def ends (text : Array Char) : Pattern → List Place → List Place
  | empty, l => l
  | one k, l => l.filterMap fun s =>
    if (text[s.offset]?).any k.holds then some { s with offset := s.offset + 1 } else none
  | start eachLine, l => l.filter fun s => isStart text eachLine s.offset
  | finish eachLine, l => l.filter fun s => isFinish text eachLine s.offset
  | textEnd, l => l.filter fun s => s.offset = text.size
  | wordEdge negated ascii, l => l.filter fun s =>
    !text.isEmpty && isWordEdge text ascii s.offset != negated
  | seq p q, l => ends text q (ends text p l)
  | alt p q, l => distinct text.size (l.flatMap fun s => ends text p [s] ++ ends text q [s])
  | repeated p least most greedy, l =>
    let forced := iterate (ends text p) (min least (text.size + 1 + groupCount p)) l
    let left := most.elim (text.size + 1) fun m => min (m - least) (text.size + 1)
    (forced.foldl (fun f s => search (fun t => ends text p [t]) greedy text.size left s f)
      (.nothing text.size)).places.reverse
  | group number p, l =>
    distinct text.size (l.flatMap fun s => (ends text p [s]).map (·.close number s.offset))
  | reference number cases, l => l.filterMap fun s =>
    match Entries.find? s.groups number with
    | some (first, last) =>
      if occursAt text cases first (last - first) s.offset then
        some { s with offset := s.offset + (last - first) }
      else none
    | none => none
  | atomic p, l => distinct text.size (l.filterMap fun s => (ends text p [s]).head?)
  | ahead negated p, l => l.filterMap fun s =>
    match ends text p [s], negated with
    | t :: _, false => some { t with offset := s.offset }
    | [], true => some s
    | _, _ => none
  | behind negated width p, l => l.filterMap fun s =>
    let found := if s.offset < width then [] else ends text p [{ s with offset := s.offset - width }]
    match found, negated with
    | t :: _, false => some { t with offset := s.offset }
    | [], true => some s
    | _, _ => none
  | ifGroup number yes no, l => distinct text.size <| l.flatMap fun s =>
    if Entries.has s.groups number then ends text yes [s] else ends text no [s]

/-- The places at which a stretch at the start of a text can end. -/
def endsFromStart (p : Pattern) (s : String) : List Place := p.ends s.toList.toArray [{ offset := 0 }]

/-- Whether some stretch at the start of the text is matched. -/
def matchesStart (p : Pattern) (s : String) : Bool := !(p.endsFromStart s).isEmpty

/-- Whether the whole text is matched. -/
def matchesWhole (p : Pattern) (s : String) : Bool :=
  (p.endsFromStart s).any (·.offset = s.toList.length)

/-! ## Groups that are referred to -/

/-- The numbers of the groups that a pattern refers to. -/
def referred : Pattern → List Nat
  | reference number _ => [number]
  | ifGroup number yes no => number :: (referred yes ++ referred no)
  | seq p q => referred p ++ referred q
  | alt p q => referred p ++ referred q
  | repeated p _ _ _ => referred p
  | group _ p => referred p
  | atomic p => referred p
  | ahead _ p => referred p
  | behind _ _ p => referred p
  | _ => []

/-- The pattern in which only groups with the given numbers are kept as groups. -/
def keepGroups (numbers : List Nat) : Pattern → Pattern
  | seq p q => seq (keepGroups numbers p) (keepGroups numbers q)
  | alt p q => alt (keepGroups numbers p) (keepGroups numbers q)
  | repeated p least most greedy => repeated (keepGroups numbers p) least most greedy
  | group number p =>
    if number ∈ numbers then group number (keepGroups numbers p) else keepGroups numbers p
  | atomic p => atomic (keepGroups numbers p)
  | ahead negated p => ahead negated (keepGroups numbers p)
  | behind negated width p => behind negated width (keepGroups numbers p)
  | ifGroup number yes no => ifGroup number (keepGroups numbers yes) (keepGroups numbers no)
  | p => p

/-- The pattern in which only groups that it refers to are kept as groups; it matches the same
stretches. -/
def forgetGroups (p : Pattern) : Pattern := p.keepGroups p.referred

end Pattern

end RegionLogic
