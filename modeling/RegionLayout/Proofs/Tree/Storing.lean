import RegionLayout.Proofs.Folds
import RegionLayout.Tree.Values

/-!
What storing values takes. Whatever cascade follows, a tare or a result is stored by notes on values
and by new values for one coordinate after another; a relation that these two steps keep holds from
the tree before to the tree after. One such relation is that the trees without values are the same.
-/

namespace RegionLayout

/-- What is said while values are stored. -/
def Notice.isOnValue : Notice → Bool
  | .sent (.relative _ _ _) => true
  | .sent (.absolute _ _ _) => true
  | .evaluated _ => true
  | _ => false

namespace RegionTree

/-- A relation that every tare stored and every evaluation keeps. -/
structure Storing (r : RegionTree → RegionTree → Prop) : Prop where
  refl : ∀ tree, r tree tree
  trans : ∀ {first second third}, r first second → r second third → r first third
  evaluated : ∀ tree name, r tree (tree.note (.evaluated name))
  storeTare : ∀ tree id tare, r tree (tree.storeTare id tare).2

/-- A relation that every result stored keeps as well. -/
structure Calculating (r : RegionTree → RegionTree → Prop) : Prop extends Storing r where
  storeRelative : ∀ tree id value, r tree (tree.storeRelative id value).2

variable {r : RegionTree → RegionTree → Prop}

namespace Storing

variable (hstoring : Storing r) (tree : RegionTree)

include hstoring

theorem tareChild (axis : Axis) (tare : Option Float) (child : CellId) :
    r tree (tree.tareChild axis tare child).2 :=
  hstoring.trans (hstoring.storeTare tree (child.coordinate axis .alpha) tare)
    (hstoring.storeTare _ (child.coordinate axis .beta) tare)

theorem tareChildren (alpha : CoordinateId) : r tree (tree.tareChildren alpha).2 := by
  refine foldl_related (r := fun first second : List CoordinateId × RegionTree =>
    r first.2 second.2) (fun _ => hstoring.refl _) hstoring.trans
    (fun state child _ => ?_) ([], tree)
  exact hstoring.tareChild state.2 alpha.axis (tree.absolute alpha) child

theorem cascade (steps : Nat) (alphas : List CoordinateId) :
    r tree (RegionTree.cascade steps alphas tree) := by
  induction steps generalizing alphas tree with
  | zero => exact hstoring.refl tree
  | succ steps ih =>
      cases alphas with
      | nil => exact hstoring.refl tree
      | cons alpha rest => exact hstoring.trans (hstoring.tareChildren tree alpha) (ih _ _)

theorem cascadeFrom (id : CoordinateId) : r tree (tree.cascadeFrom id) := by
  unfold RegionTree.cascadeFrom
  split
  · exact hstoring.cascade tree tree.size [id]
  · exact hstoring.refl tree

theorem tareAs (id : CoordinateId) (tare : Option Float) : r tree (tree.tareAs id tare) := by
  have hstored := hstoring.storeTare tree id tare
  unfold RegionTree.tareAs
  split
  next stored hstore =>
    rw [hstore] at hstored
    exact hstoring.trans hstored (hstoring.cascadeFrom stored id)
  next stored hstore =>
    rw [hstore] at hstored
    exact hstored

theorem storeTares (ids : List CoordinateId) (tare : Option Float) :
    r tree (ids.foldl (fun tree id => (tree.storeTare id tare).2) tree) :=
  foldl_related hstoring.refl hstoring.trans
    (fun state id _ => hstoring.storeTare state id tare) tree

theorem noteEvaluated (names : List String) : r tree (tree.noteEvaluated names) :=
  foldl_related hstoring.refl hstoring.trans
    (fun state name _ => hstoring.evaluated state name) tree

end Storing

namespace Calculating

variable (hcalculating : Calculating r) (tree : RegionTree)

include hcalculating

theorem storeResult (id : CoordinateId) (value : Option Float) :
    r tree (tree.storeResult id value) := by
  have hstored := hcalculating.storeRelative tree id value
  unfold RegionTree.storeResult
  split
  next stored hstore =>
    rw [hstore] at hstored
    exact hcalculating.trans hstored (hcalculating.cascadeFrom stored id)
  next stored hstore =>
    rw [hstore] at hstored
    exact hstored

theorem calculate (id : CoordinateId) : r tree (tree.calculate id).2 := by
  have hnoted := hcalculating.noteEvaluated tree (tree.namesMet id)
  unfold RegionTree.calculate
  dsimp only
  split
  · exact hcalculating.trans hnoted (hcalculating.storeResult _ id _)
  · exact hnoted

end Calculating

/-! Relations that do not even mind a value without its notice. -/

/-- A relation that tares keep, with the absolute values that follow from them. -/
structure Retaring (r : RegionTree → RegionTree → Prop) : Prop where
  refl : ∀ tree, r tree tree
  trans : ∀ {first second third}, r first second → r second third → r first third
  note : ∀ tree notice, notice.isOnValue = true → r tree (tree.note notice)
  retare : ∀ tree id old tare absolute, tree.coordinate? id = some old →
    r tree (tree.setCoordinate id { old with tare, absolute })

/-- A relation that relative values keep as well. -/
structure Revaluing (r : RegionTree → RegionTree → Prop) : Prop extends Retaring r where
  revalue : ∀ tree id old relative absolute, tree.coordinate? id = some old →
    r tree (tree.setCoordinate id { old with relative, absolute })

theorem refresh_eq (coordinate : Coordinate) :
    ∃ absolute, coordinate.refresh = { coordinate with absolute } := by
  unfold Coordinate.refresh
  split
  · exact ⟨coordinate.absolute, rfl⟩
  · exact ⟨coordinate.sum, rfl⟩

/-- To settle a coordinate is to store it with some absolute value and perhaps to say so. -/
theorem Retaring.settle (hretaring : Retaring r) (tree : RegionTree) {id : CoordinateId}
    {new : Coordinate} (hset : ∀ absolute, r tree (tree.setCoordinate id { new with absolute })) :
    r tree (tree.settle id new).2 := by
  obtain ⟨absolute, hrefresh⟩ := refresh_eq new
  have hstored : r tree (tree.setCoordinate id new.refresh) := hrefresh ▸ hset absolute
  unfold RegionTree.settle
  dsimp only
  split
  · exact hretaring.trans hstored (hretaring.note _ _ rfl)
  · exact hstored

theorem Retaring.storing (hretaring : Retaring r) : Storing r where
  refl := hretaring.refl
  trans := hretaring.trans
  evaluated tree name := hretaring.note tree (.evaluated name) rfl
  storeTare tree id tare := by
    unfold RegionTree.storeTare
    split
    next => exact hretaring.refl tree
    next old hold =>
      exact hretaring.settle tree fun absolute => hretaring.retare tree id old tare absolute hold

theorem Revaluing.calculating (hrevaluing : Revaluing r) : Calculating r where
  toStoring := hrevaluing.storing
  storeRelative tree id value := by
    unfold RegionTree.storeRelative
    split
    next => exact hrevaluing.refl tree
    next old hold =>
      split
      next =>
        exact hrevaluing.settle tree fun absolute => hrevaluing.revalue tree id old _ absolute hold
      next =>
        refine hrevaluing.trans
          (hrevaluing.note tree (.sent (.relative id old.relative value)) rfl) ?_
        exact hrevaluing.settle _ fun absolute => hrevaluing.revalue _ id old value absolute hold

end RegionTree

/-! Trees without values. -/

def Coordinate.bare (coordinate : Coordinate) : Coordinate :=
  { coordinate with relative := none, tare := none, absolute := none }

def Boundary.bare (boundary : Boundary) : Boundary :=
  ⟨boundary.alpha.bare, boundary.beta.bare⟩

def Cell.bare (cell : Cell) : Cell :=
  { cell with x := cell.x.bare, y := cell.y.bare }

theorem Cell.bare_setCoordinate (cell : Cell) (axis : Axis) (edge : Edge) {new : Coordinate}
    (hsame : new.bare = (cell.coordinate axis edge).bare) :
    (cell.setCoordinate axis edge new).bare = cell.bare := by
  cases axis <;> cases edge <;>
    simp_all [setCoordinate, Boundary.setEdge, bare, Boundary.bare, coordinate, boundary,
      Boundary.edge]

namespace RegionTree

/-- All of a tree but its values and its journal: how cells hang together, their recipes and names,
and the lengths with what they are bound to. -/
def bare (tree : RegionTree) : RegionTree :=
  { tree with
    cells := tree.cells.map Cell.bare
    network := { tree.network with journal := #[] } }

theorem bare_setCoordinate (tree : RegionTree) (id : CoordinateId) {old new : Coordinate}
    (hold : tree.coordinate? id = some old) (hsame : new.bare = old.bare) :
    (tree.setCoordinate id new).bare = tree.bare := by
  have hcells : (tree.setCoordinate id new).cells.map Cell.bare = tree.cells.map Cell.bare := by
    refine Array.ext_getElem? fun index => ?_
    rw [Array.getElem?_map, Array.getElem?_map, setCoordinate, editCell, Array.getElem?_modify]
    split
    next hindex =>
      obtain ⟨cell, hcell, rfl⟩ := Option.map_eq_some_iff.mp hold
      have hfound : tree.cells[index]? = some cell := hindex ▸ hcell
      rw [hfound, Option.map_some, Option.map_some, Option.map_some,
        cell.bare_setCoordinate id.axis id.edge hsame]
    next => rfl
  rw [bare, hcells]
  rfl

theorem revaluing_bare : Revaluing fun before after => after.bare = before.bare where
  refl _ := rfl
  trans hfirst hsecond := hsecond.trans hfirst
  note _ _ _ := rfl
  retare tree id _ _ _ hold := tree.bare_setCoordinate id hold rfl
  revalue tree id _ _ _ hold := tree.bare_setCoordinate id hold rfl

end RegionTree

end RegionLayout
