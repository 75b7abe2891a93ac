import RegionLayout.Tree.Wiring

/-!
Placement of cells. `placeable` says why a cell cannot be attached somewhere, in a fixed order of
reasons; `place` attaches it, and does not ask.
-/

namespace RegionLayout.RegionTree

/-! Links between parent and child, and the tares that follow from them. -/

def detach (tree : RegionTree) (parent child : CellId) : RegionTree :=
  let tree := tree.editCell parent fun cell =>
    { cell with children := cell.children.filter (· != child) }
  let tree := tree.editCell child fun cell => { cell with parent := none }
  child.coordinates.foldl (fun tree coordinate => tree.tareAs coordinate none) tree

def tareFromParent (tree : RegionTree) (parent child : CellId) (axis : Axis) : RegionTree :=
  let tare := tree.absolute (parent.coordinate axis .alpha)
  (tree.tareAs (child.coordinate axis .alpha) tare).tareAs (child.coordinate axis .beta) tare

def attach (tree : RegionTree) (parent child : CellId) (index : Nat) : RegionTree :=
  let tree := tree.editCell parent fun cell =>
    { cell with children := cell.children.insertIdx index child }
  let tree := tree.editCell child fun cell => { cell with parent := some parent }
  (tree.tareFromParent parent child .x).tareFromParent parent child .y

/-! Attaching. -/

/-- Attaches `child` at `index` among the children of `parent`, taking it from where it was. -/
def place (tree : RegionTree) (parent child : CellId) (index : Nat) : RegionTree :=
  let old := tree.parent child
  let freed := match old with
    | some old => tree.detach old child
    | none => tree
  let moved := (freed.attach parent child index).send (.parent child old (some parent))
  let told := old.toList.foldl (fun tree old => tree.send (.children old)) moved
  let told := told.send (.children parent)
  told.rebind (told.subtree child ++ old.toList ++ [parent])

def placeable (tree : RegionTree) (parent child : CellId) (index : Nat) : Except LayoutError Unit :=
  match tree.cell? parent, tree.cell? child with
  | none, _ => .error (.unknownCell parent)
  | _, none => .error (.unknownCell child)
  | some above, some below =>
    if below.pinned then .error (.pinnedRoot parent child)
    else if above.children.contains child then .error (.childAlreadyExists parent child)
    else if parent = child ∨ child ∈ tree.ancestors parent then
      .error (.wouldNestInsideItself parent child)
    else if above.children.length < index then
      .error (.indexOutOfBounds parent index above.children.length)
    else .ok ()

def insert (tree : RegionTree) (parent child : CellId) (index : Nat) :
    Except LayoutError RegionTree :=
  match tree.placeable parent child index with
  | .ok () => .ok (tree.place parent child index)
  | .error failure => .error failure

def append (tree : RegionTree) (parent child : CellId) : Except LayoutError RegionTree :=
  tree.insert parent child (tree.children parent).length

/-! Detaching. -/

def remove (tree : RegionTree) (parent child : CellId) : Except LayoutError RegionTree :=
  if (tree.children parent).contains child then
    let told := ((tree.detach parent child).send (.parent child (some parent) none)).send
      (.children parent)
    .ok (told.rebind (told.subtree child ++ [parent]))
  else .error (.childNotFound parent child)

end RegionLayout.RegionTree
