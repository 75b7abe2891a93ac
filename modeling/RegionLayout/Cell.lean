import RegionLayout.Entity
import RegionLayout.Length.Formula

/-!
Cells. A cell has four coordinates. A coordinate's relative value is what its recipe last came to;
its tare is where its parent's near edge is; with both it has an absolute value, their sum.
-/

namespace RegionLayout

structure Coordinate where
  recipe : LengthId
  /-- How often the recipe was replaced. -/
  wiring : Nat
  relative : Option Float
  tare : Option Float
  absolute : Option Float
  label : Option String

namespace Coordinate

def of (recipe : LengthId) : Coordinate :=
  ⟨recipe, 0, none, none, none, none⟩

/-- Relative value and tare together, when both are present. -/
def sum (coordinate : Coordinate) : Option Float :=
  match coordinate.relative, coordinate.tare with
  | some relative, some tare => some (relative + tare)
  | _, _ => none

/-- Brings the absolute value up to date, unless it equals the old one. -/
def refresh (coordinate : Coordinate) : Coordinate :=
  if coordinate.absolute == coordinate.sum then coordinate
  else { coordinate with absolute := coordinate.sum }

/-- Whether the absolute value is out of date. -/
def isStale (coordinate : Coordinate) : Bool :=
  coordinate.absolute != coordinate.sum

end Coordinate

/-! The two edges of one axis. -/

structure Boundary where
  alpha : Coordinate
  beta : Coordinate

namespace Boundary

def edge (boundary : Boundary) : Edge → Coordinate
  | .alpha => boundary.alpha
  | .beta => boundary.beta

def setEdge (boundary : Boundary) (coordinate : Coordinate) : Edge → Boundary
  | .alpha => { boundary with alpha := coordinate }
  | .beta => { boundary with beta := coordinate }

def range (value : Coordinate → Option Float) (boundary : Boundary) : Option (Float × Float) :=
  match value boundary.alpha, value boundary.beta with
  | some near, some far => some (near, far)
  | _, _ => none

def relativeRange : Boundary → Option (Float × Float) := range (·.relative)

def absoluteRange : Boundary → Option (Float × Float) := range (·.absolute)

end Boundary

/-- The recipes of a cell's coordinates. -/
structure Recipes where
  xAlpha : LengthId
  xBeta : LengthId
  yAlpha : LengthId
  yBeta : LengthId
  deriving DecidableEq, Repr

structure Cell where
  parent : Option CellId
  children : List CellId
  x : Boundary
  y : Boundary
  entity : Option EntityId
  name : Option String
  /-- Whether the cell is a root, which is never attached. -/
  pinned : Bool

namespace Cell

def of (recipes : Recipes) (pinned : Bool) : Cell where
  parent := none
  children := []
  x := ⟨.of recipes.xAlpha, .of recipes.xBeta⟩
  y := ⟨.of recipes.yAlpha, .of recipes.yBeta⟩
  entity := none
  name := none
  pinned := pinned

def boundary (cell : Cell) : Axis → Boundary
  | .x => cell.x
  | .y => cell.y

def coordinate (cell : Cell) (axis : Axis) (edge : Edge) : Coordinate :=
  (cell.boundary axis).edge edge

def setCoordinate (cell : Cell) (axis : Axis) (edge : Edge) (coordinate : Coordinate) : Cell :=
  match axis with
  | .x => { cell with x := cell.x.setEdge coordinate edge }
  | .y => { cell with y := cell.y.setEdge coordinate edge }

/-- All coordinates, in rank order. -/
def coordinates (cell : Cell) : List Coordinate :=
  [cell.x.alpha, cell.x.beta, cell.y.alpha, cell.y.beta]

theorem coordinate_setCoordinate (cell : Cell) (axis : Axis) (edge : Edge)
    (coordinate : Coordinate) :
    (cell.setCoordinate axis edge coordinate).coordinate axis edge = coordinate := by
  cases axis <;> cases edge <;> rfl

theorem coordinate_setCoordinate_of_ne {cell : Cell} {axis other : Axis} {edge near : Edge}
    {coordinate : Coordinate} (hne : (axis, edge) ≠ (other, near)) :
    (cell.setCoordinate axis edge coordinate).coordinate other near =
      cell.coordinate other near := by
  cases axis <;> cases edge <;> cases other <;> cases near <;> first | rfl | exact absurd rfl hne

end Cell

end RegionLayout
