import RegionLayout.Tree.Values
import RegionLayout.Length.Binding

/-!
Wiring of recipes. A coordinate listens to its recipe and announces on its own behalf what it hears;
recipes are bound anew where the place of their owner may have changed.
-/

namespace RegionLayout.RegionTree

def surroundings (tree : RegionTree) (id : CellId) : Surroundings where
  ancestors := tree.ancestors id
  children := tree.children id
  previous := tree.previousSibling id

/-- A length is in use while it is named or is some coordinate's recipe. -/
def roots (tree : RegionTree) : List LengthId :=
  tree.names.map (·.2) ++ tree.cells.toList.flatMap fun cell => cell.coordinates.map (·.recipe)

def audience (tree : RegionTree) : Audience where
  held := tree.network.heldFrom tree.roots
  wirings := tree.cells.flatMap fun cell => (cell.coordinates.map (·.wiring)).toArray
  watches := tree.watches.map (·.number)

/-! Lengths. -/

def mapNetwork (tree : RegionTree) (change : Network → Network) : RegionTree :=
  { tree with network := change tree.network }

def addLength (tree : RegionTree) (formula : Formula) : LengthId × RegionTree :=
  let (id, network) := tree.network.add formula
  (id, { tree with network })

def addCompound (tree : RegionTree) (shape : Compound) : LengthId × RegionTree :=
  let (id, network) := tree.network.addCompound shape
  (id, { tree with network })

def addTracer (tree : RegionTree) (name : String) (inner : LengthId) : LengthId × RegionTree :=
  let (id, network) := tree.network.addTracer name inner
  (id, { tree with network })

def named? (tree : RegionTree) (name : String) : Option LengthId :=
  (tree.names.find? fun entry => entry.1 == name).map (·.2)

/-- Keeps a length under a name, in place of any other. -/
def keep (tree : RegionTree) (name : String) (id : LengthId) : RegionTree :=
  { tree with names := (name, id) :: tree.names.filter fun entry => entry.1 != name }

/-- Gives a name up; the flag says whether it was in use. -/
def forget (tree : RegionTree) (name : String) : Bool × RegionTree :=
  ((tree.named? name).isSome,
    { tree with names := tree.names.filter fun entry => entry.1 != name })

def invalidate (tree : RegionTree) (id : LengthId) : RegionTree :=
  tree.mapNetwork fun network => network.invalidate tree.audience id

def announceChange (tree : RegionTree) (id : LengthId) (change : PrerequisiteChange) : RegionTree :=
  tree.mapNetwork fun network => network.rewire tree.audience id change

def constant? (tree : RegionTree) (id : LengthId) : Option Float :=
  match tree.network.formula? id with
  | some (.constant value) => some value
  | _ => none

/-- Edits a constant; an equal value changes nothing. -/
def setConstant (tree : RegionTree) (id : LengthId) (value : Float) : RegionTree :=
  match tree.constant? id with
  | some old =>
    if old == value then tree
    else (tree.mapNetwork fun network => network.setFormula id (.constant value)).invalidate id
  | none => tree

def editProbe (tree : RegionTree) (id : LengthId) (change : Probe → Probe) : RegionTree :=
  match tree.network.formula? id with
  | some (.probe probe) =>
    tree.mapNetwork fun network => network.setFormula id (.probe (change probe))
  | _ => tree

/-- Replaces what a probe reads, and announces the difference. -/
def setReads (tree : RegionTree) (id : LengthId) (reads : List CoordinateId) : RegionTree :=
  (tree.editProbe id fun probe => { probe with reads }).mapNetwork fun network =>
    network.announceMove tree.audience id (tree.network.prerequisites id) reads

/-! Binding. -/

def bindLength (tree : RegionTree) (owner : CoordinateId) (id : LengthId) : RegionTree :=
  tree.mapNetwork fun network =>
    network.bind tree.audience owner (tree.surroundings owner.cell) id

def bindCell (audience : Audience) (tree : RegionTree) (id : CellId) : RegionTree :=
  match tree.cell? id with
  | none => tree
  | some cell =>
    let around := tree.surroundings id
    tree.mapNetwork fun network =>
      (id.coordinates.zip cell.coordinates).foldl (fun network (owner, coordinate) =>
        network.bind audience owner around coordinate.recipe) network

/-- Binds the recipes of all coordinates of some cells. -/
def rebind (tree : RegionTree) (ids : List CellId) : RegionTree :=
  ids.foldl (bindCell tree.audience) tree

/-! New cells and new recipes. -/

def listenTo (tree : RegionTree) (id : CoordinateId) (coordinate : Coordinate) : RegionTree :=
  tree.mapNetwork fun network =>
    network.subscribeBoth coordinate.recipe (.recipeOf id coordinate.wiring)

def nextCell (tree : RegionTree) : CellId :=
  ⟨tree.size⟩

def addCell (tree : RegionTree) (recipes : Recipes) (pinned : Bool) : RegionTree :=
  let id := tree.nextCell
  let cell := Cell.of recipes pinned
  let tree := { tree with cells := tree.cells.push cell }
  ((id.coordinates.zip cell.coordinates).foldl (fun tree (owner, coordinate) =>
    tree.listenTo owner coordinate) tree).rebind [id]

/-- Adds a detached cell, whose number comes back. -/
def createCell (tree : RegionTree) (recipes : Recipes) : CellId × RegionTree :=
  (tree.nextCell, tree.addCell recipes false)

/-- Adds a root: its tares are zero, and it is never attached. -/
def createRoot (tree : RegionTree) (recipes : Recipes) : CellId × RegionTree :=
  let id := tree.nextCell
  (id, id.coordinates.foldl (fun tree coordinate => (tree.storeTare coordinate (some 0.0)).2)
    (tree.addCell recipes true))

/-- Replaces a coordinate's recipe, and announces for the coordinate the difference of what it reads
and that its value may have changed. -/
def setRecipe (tree : RegionTree) (id : CoordinateId) (recipe : LengthId) :
    Except LayoutError RegionTree :=
  match tree.coordinate? id with
  | none => .error (.unknownCell id.cell)
  | some coordinate =>
    let old := tree.network.prerequisites coordinate.recipe
    let fresh := { coordinate with recipe, wiring := coordinate.wiring + 1 }
    let tree := ((tree.listenTo id fresh).setCoordinate id fresh).bindLength id recipe
    let change := PrerequisiteChange.between old (tree.network.prerequisites recipe)
    let tree := if change.isEmpty then tree else tree.send (.prerequisites id change)
    .ok (tree.send (.invalidated id))

end RegionLayout.RegionTree
