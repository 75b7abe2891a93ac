import RegionLayout.Proofs.Tree.Cascade
import RegionLayout.Proofs.Tree.Moves

/-!
New cells put in place. A cell that was just added hangs from nothing and nothing hangs from it, so
it fits wherever its parent has room; putting it there changes the children of its parent and, as no
tare goes further down, no other cell.
-/

namespace RegionLayout

open Relation

theorem Cell.eq_of_bare {cell other : Cell} (hbare : cell.bare = other.bare)
    (hcoordinates : ∀ axis edge, cell.coordinate axis edge = other.coordinate axis edge) :
    cell = other := by
  obtain ⟨parent, children, ⟨xAlpha, xBeta⟩, ⟨yAlpha, yBeta⟩, entity, name, pinned⟩ := cell
  have hxAlpha := hcoordinates .x .alpha
  have hxBeta := hcoordinates .x .beta
  have hyAlpha := hcoordinates .y .alpha
  have hyBeta := hcoordinates .y .beta
  simp_all [bare, coordinate, boundary, Boundary.edge]

namespace RegionTree

variable {tree before middle after : RegionTree} {id other parent : CellId} {index : Nat}

theorem cell?_bare (tree : RegionTree) (id : CellId) :
    tree.bare.cell? id = (tree.cell? id).map Cell.bare :=
  Array.getElem?_map

/-! Values of one cell. -/

/-- Only values of one cell changed. -/
structure Retouches (before after : RegionTree) (id : CellId) : Prop extends
    SameLinks before after where
  bare : after.bare = before.bare
  others : ∀ other, other ≠ id → after.cell? other = before.cell? other

theorem Retouches.trans (hfirst : Retouches before middle id)
    (hsecond : Retouches middle after id) : Retouches before after id where
  toSameLinks := hfirst.toSameLinks.trans hsecond.toSameLinks
  bare := hsecond.bare.trans hfirst.bare
  others other hne := (hsecond.others other hne).trans (hfirst.others other hne)

theorem Forest.not_transGen_of_childless (hforest : tree.Forest) (hleaf : tree.children id = []) :
    ¬ TransGen tree.IsParent id other := by
  intro hbelow
  obtain ⟨child, hchild, _⟩ := TransGen.head'_iff.mp hbelow
  have hmem := (hforest.mem_children_iff id child).mpr hchild
  rw [hleaf] at hmem
  contradiction

/-- A tare of a cell from which nothing hangs goes no further. -/
theorem retouches_tareAs {coordinate : CoordinateId} (hforest : tree.Forest)
    (hleaf : tree.children coordinate.cell = []) (tare : Option Float) :
    Retouches tree (tree.tareAs coordinate tare) coordinate.cell := by
  have hbare := revaluing_bare.storing.tareAs tree coordinate tare
  refine ⟨.of_revalues (retares_tareAs tree coordinate tare).toRevalues, hbare,
    fun other hne => ?_⟩
  have hcoordinates : ∀ axis edge,
      (tree.tareAs coordinate tare).coordinate? ⟨other, axis, edge⟩ =
        tree.coordinate? ⟨other, axis, edge⟩ := fun axis edge =>
    coordinate?_tareAs hforest (fun heq => hne (congrArg (·.cell) heq))
      (hforest.not_transGen_of_childless hleaf)
  have hcell := congrArg (RegionTree.cell? · other) hbare
  simp only [cell?_bare] at hcell
  generalize tree.tareAs coordinate tare = tared at hcell hcoordinates ⊢
  cases hold : tree.cell? other with
  | none =>
      rw [hold, Option.map_none, Option.map_eq_none_iff] at hcell
      exact hcell
  | some held =>
      rw [hold, Option.map_some, Option.map_eq_some_iff] at hcell
      obtain ⟨new, hnew, hsame⟩ := hcell
      rw [hnew]
      refine congrArg some (Cell.eq_of_bare hsame fun axis edge => ?_)
      have hboth := hcoordinates axis edge
      rw [coordinate?, coordinate?, hnew, hold] at hboth
      exact Option.some.inj hboth

theorem Retouches.tareAs {coordinate : CoordinateId} (hretouches : Retouches tree middle id)
    (hforest : tree.Forest) (hleaf : tree.children id = []) (hcell : coordinate.cell = id)
    (tare : Option Float) : Retouches tree (middle.tareAs coordinate tare) id := by
  subst hcell
  refine hretouches.trans (retouches_tareAs (hforest.sameLinks hretouches.toSameLinks) ?_ tare)
  rw [hretouches.children, hleaf]

theorem Retouches.tareFromParent (hretouches : Retouches tree middle id) (hforest : tree.Forest)
    (hleaf : tree.children id = []) (parent : CellId) (axis : Axis) :
    Retouches tree (middle.tareFromParent parent id axis) id :=
  (hretouches.tareAs hforest hleaf rfl _).tareAs hforest hleaf rfl _

theorem retouches_attach (hforest : (tree.link parent id index).Forest)
    (hleaf : (tree.link parent id index).children id = []) :
    Retouches (tree.link parent id index) (tree.attach parent id index) id := by
  have hstart : Retouches (tree.link parent id index) (tree.link parent id index) id :=
    ⟨.refl _, rfl, fun _ _ => rfl⟩
  exact (hstart.tareFromParent hforest hleaf parent .x).tareFromParent hforest hleaf parent .y

theorem placeable_of_fits (hforest : tree.Forest) (hfits : tree.Fits parent id index) :
    tree.placeable parent id index = .ok () := by
  obtain ⟨above, habove⟩ := Option.isSome_iff_exists.mp hfits.known_parent
  obtain ⟨below, hbelow⟩ := Option.isSome_iff_exists.mp hfits.known_child
  have hchildren := children_of_cell? habove
  have hunpinned : ¬ below.pinned = true := by
    simpa [isPinned, hbelow] using hfits.unpinned
  have hnew : ¬ above.children.contains id = true := by
    rw [List.contains_iff_mem, ← hchildren]
    exact hfits.new
  have houtside : ¬ (parent = id ∨ id ∈ tree.ancestors parent) := by
    rw [hforest.mem_ancestors_iff]
    exact fun hinside => hfits.outside (reflTransGen_iff_eq_or_transGen.mpr hinside)
  have hindex : ¬ above.children.length < index := hchildren ▸ Nat.not_lt.mpr hfits.index
  rw [placeable, habove, hbelow]
  dsimp only
  rw [if_neg hunpinned, if_neg hnew, if_neg houtside, if_neg hindex]

/-! A cell that was just added. -/

theorem ne_nextCell_of_contains (hknown : tree.contains id = true) : id ≠ tree.nextCell := by
  rintro rfl
  rw [not_contains_nextCell] at hknown
  contradiction

theorem childless_nextCell (tree : RegionTree) : tree.children tree.nextCell = [] := by
  rw [children, Option.not_isSome_iff_eq_none.mp (ne_true_of_eq_false tree.not_contains_nextCell)]
  rfl

theorem parent_nextCell (tree : RegionTree) (recipes : Recipes) :
    (tree.addCell recipes false).parent tree.nextCell = none := by
  rw [parent_addCell]
  exact parent_of_not_contains (ne_true_of_eq_false tree.not_contains_nextCell)

theorem cells_place_nextCell (tree : RegionTree) (recipes : Recipes) (parent : CellId)
    (index : Nat) :
    ((tree.addCell recipes false).place parent tree.nextCell index).cells =
      ((tree.addCell recipes false).attach parent tree.nextCell index).cells := by
  have hfreed : (tree.addCell recipes false).freed tree.nextCell = tree.addCell recipes false := by
    rw [freed, parent_nextCell]
  rw [cells_place, hfreed]

section AddCell

variable (hforest : tree.Forest) (recipes : Recipes) (hparent : tree.contains parent = true)
  (hindex : index ≤ (tree.children parent).length)

include hforest hparent hindex

theorem fits_nextCell : (tree.addCell recipes false).Fits parent tree.nextCell index where
  known_parent := by
    rw [contains, cell?_addCell, if_neg (ne_nextCell_of_contains hparent)]
    exact hparent
  known_child := by rw [contains, cell?_addCell, if_pos rfl, Option.isSome_some]
  unpinned := by rw [isPinned_addCell, if_pos rfl]
  new hmem := by
    rw [children_addCell, hforest.mem_children_iff] at hmem
    exact ne_nextCell_of_contains (contains_of_isParent hmem) rfl
  outside hbelow := by
    rcases reflTransGen_iff_eq_or_transGen.mp hbelow with heq | hbelow
    · exact ne_nextCell_of_contains hparent heq
    · refine (hforest.addCell recipes false).not_transGen_of_childless ?_ hbelow
      rw [children_addCell, childless_nextCell]
  index := by
    rw [children_addCell]
    exact hindex

theorem insert_nextCell : (tree.addCell recipes false).insert parent tree.nextCell index =
    .ok ((tree.addCell recipes false).place parent tree.nextCell index) := by
  rw [insert, placeable_of_fits (hforest.addCell recipes false)
    (fits_nextCell hforest recipes hparent hindex)]

theorem retouches_attach_nextCell :
    Retouches ((tree.addCell recipes false).link parent tree.nextCell index)
      ((tree.addCell recipes false).attach parent tree.nextCell index) tree.nextCell := by
  have hfits := fits_nextCell hforest recipes hparent hindex
  refine retouches_attach ((hforest.addCell recipes false).link hfits ?_) ?_
  · exact parent_nextCell tree recipes
  · rw [children_link _ _ _ _ hfits.known_parent,
      if_neg (ne_nextCell_of_contains hparent).symm, children_addCell, childless_nextCell]

/-- The other cells are as they were, but for the children of the parent. -/
theorem cell?_place_nextCell (hother : other ≠ tree.nextCell) :
    ((tree.addCell recipes false).place parent tree.nextCell index).cell? other =
      (tree.cell? other).map fun held =>
        if other = parent then
          { held with children := held.children.insertIdx index tree.nextCell }
        else held := by
  have hattached := (retouches_attach_nextCell hforest recipes hparent hindex).others other hother
  rw [cell?, cells_place_nextCell, ← cell?, hattached, link, cell?_editCell, if_neg hother,
    cell?_editCell, cell?_addCell, if_neg hother]
  split
  · rfl
  · exact Option.map_id'.symm

theorem bare_place_nextCell :
    (((tree.addCell recipes false).place parent tree.nextCell index).cell? tree.nextCell).map
      Cell.bare = some { Cell.of recipes false with parent := some parent } := by
  have hattached := congrArg (RegionTree.cell? · tree.nextCell)
    (retouches_attach_nextCell hforest recipes hparent hindex).bare
  simp only [cell?_bare] at hattached
  rw [cell?, cells_place_nextCell, ← cell?, hattached, link, cell?_editCell, if_pos rfl,
    cell?_editCell, if_neg (ne_nextCell_of_contains hparent).symm, cell?_addCell, if_pos rfl]
  rfl

end AddCell

end RegionTree

end RegionLayout
