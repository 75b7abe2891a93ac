import RegionLayout.Cell
import RegionLayout.Length.Network

/-!
Trees of cells. Cells are kept by number and never given up; a detached cell is a tree of its own.
`ancestors` climbs from a cell to its root, `subtree` lists a cell and all below it, depth first.
-/

namespace RegionLayout

/-- What a watch is on. -/
inductive WatchTarget where
  | relative (coordinate : CoordinateId)
  | absolute (coordinate : CoordinateId)
  | invalidated (coordinate : CoordinateId)
  | prerequisites (coordinate : CoordinateId)
  | parent (cell : CellId)
  | children (cell : CellId)
  | lengthInvalidated (length : LengthId)
  | lengthPrerequisites (length : LengthId)
  deriving DecidableEq, Repr

structure Watch where
  number : Nat
  tag : String
  target : WatchTarget
  deriving DecidableEq, Repr

structure RegionTree where
  cells : Array Cell
  network : Network
  /-- Lengths that are kept under a name. -/
  names : List (String × LengthId)
  /-- Watches in the order they were set. -/
  watches : List Watch
  nextWatch : Nat

namespace RegionTree

def empty : RegionTree := ⟨#[], .empty, [], [], 0⟩

instance : Inhabited RegionTree := ⟨empty⟩

def size (tree : RegionTree) : Nat :=
  tree.cells.size

def isEmpty (tree : RegionTree) : Bool :=
  tree.cells.isEmpty

def cell? (tree : RegionTree) (id : CellId) : Option Cell :=
  tree.cells[id.index]?

def contains (tree : RegionTree) (id : CellId) : Bool :=
  (tree.cell? id).isSome

def coordinate? (tree : RegionTree) (id : CoordinateId) : Option Coordinate :=
  (tree.cell? id.cell).map fun cell => cell.coordinate id.axis id.edge

def cellIds (tree : RegionTree) : List CellId :=
  (List.range tree.size).map CellId.mk

/-! Values. -/

def relative (tree : RegionTree) (id : CoordinateId) : Option Float :=
  (tree.coordinate? id).bind (·.relative)

def absolute (tree : RegionTree) (id : CoordinateId) : Option Float :=
  (tree.coordinate? id).bind (·.absolute)

def requireRelative (id : CoordinateId) (coordinate : Coordinate) : Except LayoutError Float :=
  match coordinate.relative with
  | some value => .ok value
  | none => .error (.missingValue id .relative)

def requireAbsolute (id : CoordinateId) (coordinate : Coordinate) : Except LayoutError Float :=
  match coordinate.absolute with
  | some value => .ok value
  | none => .error (.missingValue id .absolute)

/-! Navigation. -/

def parent (tree : RegionTree) (id : CellId) : Option CellId :=
  (tree.cell? id).bind (·.parent)

def children (tree : RegionTree) (id : CellId) : List CellId :=
  ((tree.cell? id).map (·.children)).getD []

def climb (tree : RegionTree) : Nat → CellId → List CellId
  | 0, _ => []
  | steps + 1, id =>
    match tree.parent id with
    | some parent => parent :: climb tree steps parent
    | none => []

/-- Parent, grandparent and so on, up to the root. -/
def ancestors (tree : RegionTree) (id : CellId) : List CellId :=
  tree.climb tree.size id

def descend (tree : RegionTree) : Nat → List CellId → List CellId
  | 0, _ => []
  | _ + 1, [] => []
  | steps + 1, id :: rest => id :: descend tree steps (tree.children id ++ rest)

/-- A cell and then everything below it. -/
def subtree (tree : RegionTree) (id : CellId) : List CellId :=
  tree.descend (tree.size + 1) [id]

/-- The child before `id` among its parent's children. -/
def previousSibling (tree : RegionTree) (id : CellId) : Option CellId :=
  (tree.parent id).bind fun parent =>
    match (tree.children parent).idxOf? id with
    | some (position + 1) => (tree.children parent)[position]?
    | _ => none

/-! Changes in place. -/

def editCell (tree : RegionTree) (id : CellId) (change : Cell → Cell) : RegionTree :=
  { tree with cells := tree.cells.modify id.index change }

def setCoordinate (tree : RegionTree) (id : CoordinateId) (coordinate : Coordinate) : RegionTree :=
  tree.editCell id.cell fun cell => cell.setCoordinate id.axis id.edge coordinate

def send (tree : RegionTree) (message : Message) : RegionTree :=
  { tree with network := tree.network.send message }

def note (tree : RegionTree) (notice : Notice) : RegionTree :=
  { tree with network := tree.network.note notice }

/-- Starts a new journal. -/
def clearJournal (tree : RegionTree) : RegionTree :=
  { tree with network := { tree.network with journal := #[] } }

def setName (tree : RegionTree) (id : CellId) (name : Option String) : RegionTree :=
  tree.editCell id fun cell =>
    let label (axis : Axis) (edge : Edge) (coordinate : Coordinate) : Coordinate :=
      { coordinate with label := name.map fun name => name ++ "." ++ axis.text ++ "." ++ edge.text }
    { cell with
      name
      x := ⟨label .x .alpha cell.x.alpha, label .x .beta cell.x.beta⟩
      y := ⟨label .y .alpha cell.y.alpha, label .y .beta cell.y.beta⟩ }

/-- Names a cell, and its coordinates after it. -/
def rename (tree : RegionTree) (id : CellId) (name : Option String) :
    Except LayoutError RegionTree :=
  if tree.contains id then .ok (tree.setName id name) else .error (.unknownCell id)

def setEntity (tree : RegionTree) (id : CellId) (entity : EntityId) : RegionTree :=
  tree.editCell id fun cell => { cell with entity := some entity }

end RegionTree

end RegionLayout
