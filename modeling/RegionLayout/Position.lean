import RegionLayout.Text.Record

/-!
Names of positions. A cell has two axes, each axis a near (`alpha`) and a far (`beta`) edge, so a
cell has four coordinates; `CoordinateId.rank` numbers all coordinates in their order.
-/

namespace RegionLayout

inductive Axis where
  | x
  | y
  deriving DecidableEq, Repr

namespace Axis

def index : Axis → Nat
  | x => 0
  | y => 1

def text : Axis → String
  | x => "x"
  | y => "y"

def inspect : Axis → String
  | x => "X"
  | y => "Y"

end Axis

inductive Edge where
  | alpha
  | beta
  deriving DecidableEq, Repr

namespace Edge

def index : Edge → Nat
  | alpha => 0
  | beta => 1

def text : Edge → String
  | alpha => "alpha"
  | beta => "beta"

def inspect : Edge → String
  | alpha => "Alpha"
  | beta => "Beta"

end Edge

/-- Place of a cell in the arena of its tree. -/
structure CellId where
  index : Nat
  deriving DecidableEq, Repr

/-- One edge of one axis of one cell; a coordinate never changes its cell. -/
structure CoordinateId where
  cell : CellId
  axis : Axis
  edge : Edge
  deriving DecidableEq, Repr

namespace CellId

def text (cell : CellId) : String :=
  s!"cell#{cell.index}"

def inspect (cell : CellId) : String :=
  Record.wrapped "CellId" (toString cell.index)

def coordinate (cell : CellId) (axis : Axis) (edge : Edge) : CoordinateId :=
  ⟨cell, axis, edge⟩

/-- The coordinates of a cell, in rank order. -/
def coordinates (cell : CellId) : List CoordinateId :=
  [cell.coordinate .x .alpha, cell.coordinate .x .beta,
    cell.coordinate .y .alpha, cell.coordinate .y .beta]

theorem mem_coordinates {cell : CellId} {coordinate : CoordinateId} :
    coordinate ∈ cell.coordinates ↔ coordinate.cell = cell := by
  obtain ⟨owner, axis, edge⟩ := coordinate
  cases axis <;> cases edge <;> simp [coordinates, CellId.coordinate, eq_comm]

end CellId

namespace CoordinateId

def text (coordinate : CoordinateId) : String :=
  coordinate.cell.text ++ "." ++ coordinate.axis.text ++ "." ++ coordinate.edge.text

def inspect (coordinate : CoordinateId) : String :=
  Record.full "CoordinateId" [("cell", coordinate.cell.inspect),
    ("axis", coordinate.axis.inspect), ("edge", coordinate.edge.inspect)]

/-! Coordinates are ordered by cell, then axis, then edge. -/

def rank (coordinate : CoordinateId) : Nat :=
  4 * coordinate.cell.index + 2 * coordinate.axis.index + coordinate.edge.index

def sort (coordinates : List CoordinateId) : List CoordinateId :=
  coordinates.mergeSort fun left right => left.rank ≤ right.rank

theorem rank_injective {left right : CoordinateId} (hrank : left.rank = right.rank) :
    left = right := by
  obtain ⟨⟨leftCell⟩, leftAxis, leftEdge⟩ := left
  obtain ⟨⟨rightCell⟩, rightAxis, rightEdge⟩ := right
  cases leftAxis <;> cases leftEdge <;> cases rightAxis <;> cases rightEdge <;>
    simp [rank, Axis.index, Edge.index] at hrank ⊢ <;> omega

end CoordinateId

end RegionLayout
