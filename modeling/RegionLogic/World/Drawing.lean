import RegionLogic.World.Basic

/-!
# Drawings

A world is drawn as a directed graph: a box for each region, labelled with its name and its locations,
and an arrow for each pair of a region and a region that it leads to. Every text in the drawing is quoted, and
then the boxes and the arrows are handed to whatever writes a directed graph as a text.

## Main definitions

* `Drawing`: the drawings
* `World.drawing`: the drawing of a world
* `Drawing.quote`: a text as a quoted identifier of the DOT language
* `DrawingWriter`: how boxes and arrows are written
* `World.drawingText`: the written drawing of a world
-/

namespace RegionLogic

/-- A node of a drawing. -/
structure DrawnNode where
  /-- Its label; a node that is known only from arrows has none. -/
  label : Option String := none
  /-- The nodes that its arrows lead to, each with the number of alternatives. -/
  arrows : List (String × Nat) := []
  deriving DecidableEq, Inhabited

/-- A directed graph to be drawn: its nodes, in the order in which they were added. -/
structure Drawing where
  nodes : List (String × DrawnNode) := []
  deriving DecidableEq, Inhabited

namespace Drawing

/-- The drawing with a node of the given name. -/
def touch (d : Drawing) (name : String) : Drawing :=
  if Entries.has d.nodes name then d else ⟨Entries.set d.nodes name {}⟩

/-- The drawing with a labelled node. -/
def addNode (d : Drawing) (name label : String) : Drawing :=
  ⟨Entries.adjust (d.touch name).nodes name fun n => { n with label := some label }⟩

/-- The drawing with an arrow; there is at most one from one node to another. -/
def addArrow (d : Drawing) (source target : String) (branches : Nat) : Drawing :=
  ⟨Entries.adjust ((d.touch source).touch target).nodes source fun n =>
    { n with arrows := Entries.set n.arrows target branches }⟩

/-- The arrows, grouped by the node that they leave. -/
def arrows (d : Drawing) : List (String × String × Nat) :=
  d.nodes.flatMap fun n => n.2.arrows.map (n.1, ·)

/-- The names of the nodes, with their labels. -/
def boxes (d : Drawing) : List (String × String) := d.nodes.map fun n => (n.1, n.2.label.getD "")

/-- The arrows as pairs of nodes. -/
def links (d : Drawing) : List (String × String) := d.arrows.map fun a => (a.1, a.2.1)

/-! ## Quoted texts -/

/-- A character inside a quoted text. -/
def quotedChar (c : Char) : List Char :=
  if c = '\\' then ['\\', '\\']
  else if c = '"' then ['\\', '"']
  else if c = '\n' then ['\\', 'n']
  else [c]

/-- A text between quotes; a backslash, a quote and a line break are escaped. -/
def quote (s : String) : String := .ofList ('"' :: s.toList.flatMap quotedChar ++ ['"'])

/-- The drawing with every name and label quoted. A node without a label cannot be drawn. -/
def quoted (d : Drawing) : Except Fault Drawing := do
  let nodes ← d.nodes.foldlM (fun q n =>
    match n.2.label with
    | some label => .ok (q.addNode (quote n.1) (quote label))
    | none => .error (.missingKey "shape")) ({} : Drawing)
  return d.arrows.foldl (fun q a => q.addArrow (quote a.1) (quote a.2.1) a.2.2) nodes

end Drawing

/-! ## The written drawing -/

/-- A way to write a directed graph as a text. What it is given is quoted. -/
class DrawingWriter where
  /-- The text for boxes, each with its label, and for the arrows between them. -/
  write (boxes arrows : List (String × String)) : Except Fault String

namespace World

/-- The label of a region: its name and its locations, one on a line. -/
def label (r : Region) : Except Fault String := joinNames "\n" (r.name :: r.locations)

/-- The drawing of a world. All names in it have to be texts. -/
def drawing (w : World) : Except Fault Drawing := do
  let boxes ← w.regions.foldlM (fun d r => return d.addNode r.name.spelling (← label r))
    ({} : Drawing)
  return w.regions.foldl (fun d r =>
    r.exits.foldl (fun d e => d.addArrow r.name.spelling e.target.spelling e.logic.length) d) boxes

/-- The written drawing of a world. The numbers of alternatives are not written. -/
def drawingText [DrawingWriter] (w : World) : Except Fault String := do
  let quoted ← (← w.drawing).quoted
  DrawingWriter.write quoted.boxes quoted.links

end World

end RegionLogic
