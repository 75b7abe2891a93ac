import RegionLayout.Tree.Basic
import RegionLayout.Length.Evaluation

/-!
Values of coordinates. Whenever the absolute value of a near edge moves, it becomes the tare of the
cell's children on that axis, and theirs of their children.
-/

namespace RegionLayout.RegionTree

/-! Storing, with an announcement of each value that is not equal to the old one. The flag says
whether the absolute value moved. -/

def settle (tree : RegionTree) (id : CoordinateId) (coordinate : Coordinate) : Bool × RegionTree :=
  let tree := tree.setCoordinate id coordinate.refresh
  if coordinate.isStale then
    (true, tree.send (.absolute id coordinate.absolute coordinate.sum))
  else (false, tree)

def storeRelative (tree : RegionTree) (id : CoordinateId) (value : Option Float) :
    Bool × RegionTree :=
  match tree.coordinate? id with
  | none => (false, tree)
  | some coordinate =>
    if coordinate.relative == value then tree.settle id coordinate
    else (tree.send (.relative id coordinate.relative value)).settle id
      { coordinate with relative := value }

def storeTare (tree : RegionTree) (id : CoordinateId) (tare : Option Float) : Bool × RegionTree :=
  match tree.coordinate? id with
  | none => (false, tree)
  | some coordinate => tree.settle id { coordinate with tare }

/-! Tares of descendants. Each step takes one near edge and passes its absolute value on. -/

/-- Gives both edges of a child their tare; the child's near edge comes back if it moved. -/
def tareChild (tree : RegionTree) (axis : Axis) (tare : Option Float) (child : CellId) :
    List CoordinateId × RegionTree :=
  let (moved, tree) := tree.storeTare (child.coordinate axis .alpha) tare
  let (_, tree) := tree.storeTare (child.coordinate axis .beta) tare
  (if moved then [child.coordinate axis .alpha] else [], tree)

def tareChildren (tree : RegionTree) (alpha : CoordinateId) : List CoordinateId × RegionTree :=
  let tare := tree.absolute alpha
  (tree.children alpha.cell).foldl (fun (moved, tree) child =>
    let (more, tree) := tree.tareChild alpha.axis tare child
    (more ++ moved, tree)) ([], tree)

def cascade : Nat → List CoordinateId → RegionTree → RegionTree
  | 0, _, tree => tree
  | _ + 1, [], tree => tree
  | steps + 1, alpha :: rest, tree =>
    let (moved, tree) := tree.tareChildren alpha
    cascade steps (moved ++ rest) tree

/-- Brings the tares below a coordinate up to date; far edges have none below them. -/
def cascadeFrom (tree : RegionTree) (id : CoordinateId) : RegionTree :=
  match id.edge with
  | .alpha => cascade tree.size [id] tree
  | .beta => tree

def tareAs (tree : RegionTree) (id : CoordinateId) (tare : Option Float) : RegionTree :=
  match tree.storeTare id tare with
  | (true, tree) => tree.cascadeFrom id
  | (false, tree) => tree

/-- Sets a tare by hand. -/
def setTare (tree : RegionTree) (id : CoordinateId) (tare : Option Float) :
    Except LayoutError RegionTree :=
  if tree.contains id.cell then .ok (tree.tareAs id tare) else .error (.unknownCell id.cell)

/-! Calculation. -/

/-- What a coordinate's recipe comes to at present. -/
def evaluate (tree : RegionTree) (id : CoordinateId) : Evaluated :=
  match tree.coordinate? id with
  | none => .error (.unknownCell id.cell)
  | some coordinate => tree.network.value tree.relative coordinate.recipe

def namesMet (tree : RegionTree) (id : CoordinateId) : List String :=
  match tree.coordinate? id with
  | none => []
  | some coordinate => tree.network.namesMet tree.relative coordinate.recipe

def noteEvaluated (tree : RegionTree) (names : List String) : RegionTree :=
  names.foldl (fun tree name => tree.note (.evaluated name)) tree

/-- Evaluates a length by itself. -/
def evaluateLength (tree : RegionTree) (id : LengthId) : Evaluated × RegionTree :=
  (tree.network.value tree.relative id,
    tree.noteEvaluated (tree.network.namesMet tree.relative id))

def storeResult (tree : RegionTree) (id : CoordinateId) (value : Option Float) : RegionTree :=
  match tree.storeRelative id value with
  | (true, tree) => tree.cascadeFrom id
  | (false, tree) => tree

/-- Evaluates a coordinate's recipe and stores the result, which comes back. -/
def calculate (tree : RegionTree) (id : CoordinateId) : Evaluated × RegionTree :=
  let noted := tree.noteEvaluated (tree.namesMet id)
  match tree.evaluate id with
  | .ok value => (.ok value, noted.storeResult id value)
  | .error failure => (.error failure, noted)

end RegionLayout.RegionTree
