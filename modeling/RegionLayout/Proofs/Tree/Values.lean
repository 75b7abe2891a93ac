import RegionLayout.Proofs.Tree.Edits
import RegionLayout.Proofs.Tree.Storing

/-!
Values move alone. Storing a tare moves no relative value, storing a result moves one, and neither
touches recipes or links between cells.
-/

namespace RegionLayout

theorem Notice.rewiresLength_of_isOnValue {notice : Notice} (hvalue : notice.isOnValue = true) :
    notice.rewiresLength = false := by
  unfold Notice.isOnValue at hvalue
  split at hvalue
  all_goals first | rfl | contradiction

namespace RegionTree

/-! Looking up after a change. -/

theorem cell?_editCell (tree : RegionTree) (id other : CellId) (change : Cell → Cell) :
    (tree.editCell id change).cell? other =
      if other = id then (tree.cell? other).map change else tree.cell? other := by
  obtain ⟨index⟩ := id
  obtain ⟨place⟩ := other
  simp only [cell?, editCell, Array.getElem?_modify, CellId.mk.injEq, eq_comm (a := index)]

theorem coordinate?_setCoordinate (tree : RegionTree) (id other : CoordinateId)
    (coordinate : Coordinate) :
    (tree.setCoordinate id coordinate).coordinate? other =
      if other = id then (tree.coordinate? other).map fun _ => coordinate
      else tree.coordinate? other := by
  obtain ⟨cell, axis, edge⟩ := id
  obtain ⟨place, side, near⟩ := other
  simp only [coordinate?, setCoordinate, cell?_editCell]
  by_cases hcell : place = cell
  · subst hcell
    rw [if_pos rfl]
    cases tree.cell? place with
    | none => simp
    | some held =>
        by_cases hsame : (axis, edge) = (side, near)
        · obtain ⟨rfl, rfl⟩ := Prod.mk.inj hsame
          simp [Cell.coordinate_setCoordinate]
        · have hne : ¬ CoordinateId.mk place side near = ⟨place, axis, edge⟩ := by
            intro heq
            obtain ⟨_, haxis, hedge⟩ := CoordinateId.mk.inj heq
            exact hsame (congrArg₂ Prod.mk haxis.symm hedge.symm)
          rw [if_neg hne, Option.map_some, Option.map_some, Option.map_some,
            Cell.coordinate_setCoordinate_of_ne hsame]
  · rw [if_neg hcell, if_neg fun heq => hcell (CoordinateId.mk.inj heq).1]

/-! Links between cells. -/

/-- What a cell hangs from, what hangs from it, and whether it may hang at all. -/
structure Links where
  parent : Option CellId
  children : List CellId
  pinned : Bool

def links (tree : RegionTree) (id : CellId) : Option Links :=
  (tree.cell? id).map fun cell => ⟨cell.parent, cell.children, cell.pinned⟩

theorem children_of_cell? {tree : RegionTree} {id : CellId} {cell : Cell}
    (hcell : tree.cell? id = some cell) : tree.children id = cell.children := by
  rw [children, hcell]
  rfl

theorem parent_eq_links (tree : RegionTree) (id : CellId) :
    tree.parent id = (tree.links id).bind (·.parent) := by
  rw [parent, links, Option.bind_map]
  rfl

theorem children_eq_links (tree : RegionTree) (id : CellId) :
    tree.children id = ((tree.links id).map (·.children)).getD [] := by
  rw [children, links, Option.map_map]
  rfl

theorem links_setCoordinate (tree : RegionTree) (id : CoordinateId) (coordinate : Coordinate)
    (cell : CellId) : (tree.setCoordinate id coordinate).links cell = tree.links cell := by
  rw [links, setCoordinate, cell?_editCell, links]
  split
  · cases tree.cell? cell with
    | none => rfl
    | some held => cases id.axis <;> rfl
  · rfl

theorem children_setCoordinate (tree : RegionTree) (id : CoordinateId) (coordinate : Coordinate)
    (cell : CellId) : (tree.setCoordinate id coordinate).children cell = tree.children cell := by
  rw [children_eq_links, links_setCoordinate, children_eq_links]

theorem relative_eq_of_coordinate? {tree : RegionTree} {id : CoordinateId} {coordinate : Coordinate}
    (hcoordinate : tree.coordinate? id = some coordinate) :
    tree.relative id = coordinate.relative := by
  rw [relative, hcoordinate, Option.bind_some]

/-! Changes of values. -/

structure Revalues (before after : RegionTree) : Prop extends Steady before after where
  links : ∀ id, after.links id = before.links id

/-- Tares changed, and the absolute values that follow from them. -/
structure Retares (before after : RegionTree) : Prop extends Revalues before after where
  relative : ∀ id, after.relative id = before.relative id

section Compose

variable {before middle after : RegionTree}

theorem Revalues.refl (tree : RegionTree) : Revalues tree tree where
  toSteady := .refl tree
  links _ := rfl

theorem Revalues.trans (hfirst : Revalues before middle) (hsecond : Revalues middle after) :
    Revalues before after where
  toSteady := hfirst.toSteady.trans hsecond.toSteady
  links id := (hsecond.links id).trans (hfirst.links id)

theorem Revalues.children (hrevalues : Revalues before after) (id : CellId) :
    after.children id = before.children id := by
  rw [children_eq_links, hrevalues.links, children_eq_links]

theorem Revalues.keeps (hrevalues : Revalues before after) : Keeps before after :=
  hrevalues.toSteady.keeps hrevalues.children

theorem Retares.refl (tree : RegionTree) : Retares tree tree :=
  ⟨Revalues.refl tree, fun _ => rfl⟩

theorem Retares.trans (hfirst : Retares before middle) (hsecond : Retares middle after) :
    Retares before after :=
  ⟨hfirst.toRevalues.trans hsecond.toRevalues,
    fun id => (hsecond.relative id).trans (hfirst.relative id)⟩

theorem Retares.edits (hretares : Retares before after) : Edits before after :=
  hretares.toSteady.edits hretares.relative hretares.children

end Compose

theorem retares_note (tree : RegionTree) {notice : Notice}
    (hsilent : notice.rewiresLength = false) : Retares tree (tree.note notice) where
  toSteady := steady_note tree hsilent
  links _ := rfl
  relative _ := rfl

section Settle

variable {tree : RegionTree} {id : CoordinateId} {old new : Coordinate}

theorem revalues_setCoordinate (hold : tree.coordinate? id = some old)
    (hrecipe : new.recipe = old.recipe) (hwiring : new.wiring = old.wiring) :
    Revalues tree (tree.setCoordinate id new) where
  lengths := rfl
  hushed := .refl tree.network
  names := rfl
  size := by simp [size, setCoordinate, editCell]
  wired other := by
    rw [coordinate?_setCoordinate]
    split
    next heq => simp [heq, hold, hrecipe, hwiring]
    next => rfl
  links := links_setCoordinate tree id new

theorem relative_setCoordinate (hold : tree.coordinate? id = some old) (other : CoordinateId) :
    (tree.setCoordinate id new).relative other =
      if other = id then new.relative else tree.relative other := by
  rw [relative, coordinate?_setCoordinate]
  split
  next heq =>
    rw [heq, hold]
    rfl
  next => rfl

theorem coordinate?_settle (tree : RegionTree) (id : CoordinateId) (new : Coordinate)
    (other : CoordinateId) : (tree.settle id new).2.coordinate? other =
      if other = id then (tree.coordinate? other).map fun _ => new.refresh
      else tree.coordinate? other := by
  rw [← coordinate?_setCoordinate]
  unfold settle
  dsimp only
  split <;> rfl

theorem relative_settle (hold : tree.coordinate? id = some old) (other : CoordinateId) :
    (tree.settle id new).2.relative other =
      if other = id then new.relative else tree.relative other := by
  obtain ⟨absolute, hrefresh⟩ := refresh_eq new
  rw [relative, coordinate?_settle]
  split
  next heq => rw [heq, hold, Option.map_some, Option.bind_some, hrefresh]
  next => rw [relative]

end Settle

theorem retaring_retares : Retaring Retares where
  refl := .refl
  trans := .trans
  note tree _ hvalue := retares_note tree (Notice.rewiresLength_of_isOnValue hvalue)
  retare tree id old tare absolute hold := by
    refine ⟨revalues_setCoordinate hold rfl rfl, fun other => ?_⟩
    rw [relative_setCoordinate hold]
    split
    next heq => rw [heq, relative_eq_of_coordinate? hold]
    next => rfl

theorem revaluing_revalues : Revaluing Revalues where
  refl := .refl
  trans := .trans
  note tree notice hvalue := (retaring_retares.note tree notice hvalue).toRevalues
  retare _ _ _ _ _ hold := revalues_setCoordinate hold rfl rfl
  revalue _ _ _ _ _ hold := revalues_setCoordinate hold rfl rfl

theorem retares_storeTare (tree : RegionTree) (id : CoordinateId) (tare : Option Float) :
    Retares tree (tree.storeTare id tare).2 :=
  retaring_retares.storing.storeTare tree id tare

theorem retares_tareAs (tree : RegionTree) (id : CoordinateId) (tare : Option Float) :
    Retares tree (tree.tareAs id tare) :=
  retaring_retares.storing.tareAs tree id tare

/-! Calculation. -/

theorem relative_storeRelative (tree : RegionTree) (id : CoordinateId) {old : Coordinate}
    (hold : tree.coordinate? id = some old) (value : Option Float) (other : CoordinateId) :
    (tree.storeRelative id value).2.relative other =
      if other = id ∧ (tree.relative id == value) = false then value else tree.relative other := by
  have hvalue := relative_eq_of_coordinate? hold
  unfold storeRelative
  rw [hold]
  dsimp only
  split
  next hequal =>
    rw [relative_settle hold, hvalue]
    by_cases heq : other = id
    · simp [heq, hequal, hvalue]
    · simp [heq]
  next hdiffers =>
    have hsent : Retares tree (tree.send (.relative id old.relative value)) := retares_note tree rfl
    have hold' : (tree.send (.relative id old.relative value)).coordinate? id = some old := hold
    rw [relative_settle hold', hvalue]
    by_cases heq : other = id
    · simp [heq, hdiffers]
    · simp only [heq, false_and, if_false]
      exact hsent.relative other

theorem relative_storeResult (tree : RegionTree) (id : CoordinateId) {old : Coordinate}
    (hold : tree.coordinate? id = some old) (value : Option Float) (other : CoordinateId) :
    (tree.storeResult id value).relative other =
      if other = id ∧ (tree.relative id == value) = false then value else tree.relative other := by
  have hrelative := relative_storeRelative tree id hold value other
  unfold storeResult
  split
  next stored hstore =>
    rw [hstore] at hrelative
    rw [(retaring_retares.storing.cascadeFrom stored id).relative, hrelative]
  next stored hstore =>
    rw [hstore] at hrelative
    exact hrelative

/-- What a coordinate holds after its recipe came to something. -/
def settled (old : Option Float) : Evaluated → Option Float
  | .ok value => if old == value then old else value
  | .error _ => old

theorem calculate_spec (tree : RegionTree) (id : CoordinateId) :
    (tree.calculate id).1 = tree.evaluate id ∧ Revalues tree (tree.calculate id).2 ∧
      ∀ other, (tree.calculate id).2.relative other =
        if other = id then settled (tree.relative id) (tree.evaluate id)
        else tree.relative other := by
  have hnoted := retaring_retares.storing.noteEvaluated tree (tree.namesMet id)
  have hrevalues := revaluing_revalues.calculating.calculate tree id
  cases hvalue : tree.evaluate id with
  | error failure =>
      simp only [calculate, hvalue] at hrevalues ⊢
      refine ⟨trivial, hrevalues, fun other => ?_⟩
      rw [hnoted.relative]
      split
      next heq => rw [heq, settled]
      next => rfl
  | ok value =>
      simp only [calculate, hvalue] at hrevalues ⊢
      refine ⟨trivial, hrevalues, fun other => ?_⟩
      cases hold : tree.coordinate? id with
      | none => simp [evaluate, hold] at hvalue
      | some old =>
          obtain ⟨new, hnew, _, _⟩ := hnoted.exists_coordinate hold
          rw [relative_storeResult _ id hnew, hnoted.relative, hnoted.relative, settled]
          by_cases heq : other = id
          · subst heq
            cases hsame : tree.relative other == value <;> simp
          · simp [heq]

end RegionTree

end RegionLayout
