import Mathlib.Data.List.Induction
import Mathlib.Data.List.Infix
import RegionLayout.Proofs.Tree.Alterations

/-!
Lengths follow the position of their owner. An edit binds anew what it moved, and whatever it did
not bind anew has the ancestors and the children it had; so as long as coordinates do not share
lengths, a span of an ancestor reads that ancestor's edges and nothing if there is none, and a span
of children reads the far edges of all children in order.
-/

namespace RegionLayout

namespace RegionTree

open Network

variable {tree before middle after : RegionTree} {owner : CoordinateId} {lower : LengthId}

/-- The cell some generations above a cell. -/
def ancestor? (tree : RegionTree) : Nat → CellId → Option CellId
  | 0, id => some id
  | generations + 1, id => (tree.parent id).bind (tree.ancestor? generations)

theorem Forest.getElem?_ancestors (hforest : tree.Forest) (generations : Nat) (id : CellId) :
    (tree.ancestors id)[generations]? = tree.ancestor? (generations + 1) id := by
  induction generations generalizing id with
  | zero =>
      rw [hforest.ancestors_eq, ancestor?]
      cases tree.parent id <;> rfl
  | succ generations ih =>
      rw [hforest.ancestors_eq, ancestor?]
      cases hparent : tree.parent id with
      | none => rfl
      | some parent => exact ih parent

/-- Every length reads what it reaches for from the coordinate whose recipe it is part of. -/
structure Aligned (tree : RegionTree) : Prop where
  forest : tree.Forest
  /-- Nothing is fewer generations above a cell than its parent. -/
  generations : ∀ id generations, tree.network.reach? id = some (.ancestor generations) →
    0 < generations
  aimed : ∀ owner, tree.AimedAt owner

theorem AimedAt.undisturbed (haimed : before.AimedAt owner)
    (hrests : Rests before.network after.network) (hsame : Undisturbed before after owner) :
    after.AimedAt owner := by
  intro lower reach hpart hreach
  rw [partOf_congr hsame.recipe hrests.toSameReach] at hpart
  rw [hrests.reach] at hreach
  rw [hrests.reads lower (Option.isSome_of_eq_some hreach), haimed lower reach hpart hreach]
  cases reach with
  | ancestor generations => simp only [Reach.targets, surroundings, hsame.ancestors]
  | children => simp only [Reach.targets, surroundings, hsame.children]

namespace Aligned

theorem rests (haligned : before.Aligned) (hlinks : SameLinks before after)
    (hrecipes : ∀ owner, after.recipe? owner = before.recipe? owner)
    (hrests : Rests before.network after.network) : after.Aligned where
  forest := haligned.forest.sameLinks hlinks
  generations id generations hreach :=
    haligned.generations id generations (hrests.reach id ▸ hreach)
  aimed owner := (haligned.aimed owner).undisturbed hrests (.of_sameLinks hlinks (hrecipes owner))

theorem grows {formula : Formula} (haligned : before.Aligned) (hrooted : before.Rooted)
    (hcells : after.cells = before.cells) (hgrows : Grows before.network after.network formula)
    (hadded : ∀ generations, formula.reach? = some (.ancestor generations) → 0 < generations) :
    after.Aligned where
  forest := haligned.forest.sameLinks (.of_cells hcells)
  generations id generations hreach := by
    rw [Network.reach?, hgrows.formula] at hreach
    split at hreach
    next => exact hadded generations hreach
    next => exact haligned.generations id generations hreach
  aimed owner := by
    intro lower reach hpart hreach
    rw [hrooted.partOf_grows hcells hgrows] at hpart
    have hformula : after.network.formula? lower = before.network.formula? lower := by
      rw [hgrows.formula, if_neg (Grows.ne_of_lt (hrooted.lt_of_partOf hpart))]
    rw [surroundings_congr hcells, reads, hformula]
    rw [Network.reach?, hformula] at hreach
    exact haligned.aimed owner lower reach hpart hreach

/-- Some coordinates were disturbed, and have been bound anew. -/
theorem rebound {owners : CoordinateId → Prop} (haligned : before.Aligned) (hforest : after.Forest)
    (hrests : Rests before.network middle.network) (hrebinding : Rebinding owners middle after)
    (hapart : after.Apart)
    (hothers : ∀ owner, ¬ owners owner → Undisturbed before after owner) : after.Aligned where
  forest := hforest
  generations id generations hreach := by
    rw [hrebinding.sameReach.reach, hrests.reach] at hreach
    exact haligned.generations id generations hreach
  aimed owner := by
    refine hrebinding.aimedAt (hrebinding.apart_before hapart) ?_
    by_cases howner : owners owner
    · exact .inl howner
    · have hback : Undisturbed after middle owner :=
        .of_sameLinks (.of_cells hrebinding.cells.symm) (recipe?_congr hrebinding.cells.symm owner)
      exact .inr ((haligned.aimed owner).undisturbed hrests ((hothers owner howner).trans hback))

theorem alters (haligned : before.Aligned) (hrooted : before.Rooted) (halters : Alters before after)
    (hforest : after.Forest) (hapart : after.Apart) : after.Aligned := by
  cases halters with
  | rests hlinks hrecipes hrests _ => exact haligned.rests hlinks hrecipes hrests
  | grows hcells hgrows hunplaced =>
      exact haligned.grows hrooted hcells hgrows hunplaced.generations
  | @reseats owners disturbed bound hrecounts hrebinding hothers hlinks hsteady =>
      have hvalues : Rests bound.network after.network := .of_lengths hsteady.lengths
      have hbound := haligned.rebound (hforest.sameLinks hlinks.symm) hrecounts.rests
        hrebinding (hapart.congr (fun owner => (hsteady.recipe? owner).symm)
          hvalues.toSameReach.symm) hothers
      exact hbound.rests hlinks hsteady.recipe? hvalues

theorem empty : RegionTree.empty.Aligned where
  forest := .empty
  generations _ _ := nofun
  aimed _ _ _ hpart := absurd hpart nofun

theorem acted {actions : List TreeAction} (hdirect : ∀ name owner, .bind name owner ∉ actions)
    (hunshared : ∀ earlier, earlier <+: actions → (RegionTree.acted earlier).Unshared) :
    (RegionTree.acted actions).Aligned := by
  induction actions using List.reverseRecOn with
  | nil => exact .empty
  | append_singleton earlier action ih =>
      have hearlier := ih (fun name owner hmem => hdirect name owner (List.mem_append_left _ hmem))
        fun start hstart => hunshared start (hstart.trans (List.prefix_append _ _))
      have hforest := forest_acted earlier
      have hnot : ∀ name owner, action ≠ .bind name owner := fun name owner heq =>
        hdirect name owner (List.mem_append_right _ (heq ▸ List.mem_singleton_self action))
      have hapart : (RegionTree.acted (earlier ++ [action])).Apart :=
        ⟨(Sound.acted _).rooted, hunshared _ List.prefix_rfl⟩
      rw [acted_snoc] at hapart ⊢
      exact hearlier.alters (Sound.acted earlier).rooted
        (alters_act (Sound.acted earlier) hforest hnot) (hforest.act action) hapart

end Aligned

/-- As long as no length was part of the recipes of two coordinates, and lengths were bound by edits
alone: wherever in a coordinate's recipe they are, spans of an ancestor read both edges of that
ancestor, or nothing without it, and spans of children the far edges of all children in order. -/
theorem parts_read_surroundings {actions : List TreeAction}
    (hdirect : ∀ name owner, .bind name owner ∉ actions)
    (hunshared : ∀ earlier, earlier <+: actions → (acted earlier).Unshared) {owner : CoordinateId}
    {lower : LengthId} (hpart : (acted actions).PartOf lower owner) :
    (∀ span, (acted actions).network.formula? lower = some (.ancestorSpan span) →
      (acted actions).network.prerequisites lower =
        match (acted actions).ancestor? span.generations owner.cell with
        | some found => [found.coordinate owner.axis .alpha, found.coordinate owner.axis .beta]
        | none => []) ∧
    ∀ bound, (acted actions).network.formula? lower = some (.childrenMax bound) →
      (acted actions).network.prerequisites lower =
        ((acted actions).children owner.cell).map fun child =>
          child.coordinate owner.axis .beta := by
  have haligned := Aligned.acted hdirect hunshared
  have hbuilt := (Sound.acted actions).network.laid.builtIn
  generalize acted actions = tree at hpart haligned hbuilt ⊢
  have haimed := fun reach => haligned.aimed owner lower reach hpart
  rw [hbuilt.prerequisites]
  refine ⟨fun span hformula => ?_, fun bound hformula => ?_⟩
  · have hreach : tree.network.reach? lower = some (.ancestor span.generations) := by
      rw [Network.reach?, hformula]
      rfl
    have hgenerations := Nat.sub_add_cancel (haligned.generations lower _ hreach)
    rw [haimed _ hreach, ← hgenerations, ← haligned.forest.getElem?_ancestors]
    rfl
  · refine haimed .children ?_
    rw [Network.reach?, hformula]
    rfl

/-! Whether lengths are shared can be computed. -/

/-- The coordinates whose recipes a length is part of. -/
def sharers (tree : RegionTree) (index : Nat) : List CoordinateId :=
  (tree.cellIds.flatMap CellId.coordinates).filter fun owner =>
    (tree.network.heldFrom (tree.recipe? owner).toList).getD index false

theorem Sound.mem_sharers (hsound : tree.Sound) (lower : LengthId) (owner : CoordinateId) :
    owner ∈ tree.sharers lower.index ↔ tree.PartOf lower owner := by
  have hpart : Graph.Marked (tree.network.heldFrom (tree.recipe? owner).toList) lower.index ↔
      tree.PartOf lower owner := by
    rw [Network.marked_heldFrom hsound.network.laid.older fun root hroot =>
      hsound.recipe?_lt (Option.mem_toList.mp hroot), PartOf]
    simp only [Option.mem_toList]
  refine (List.mem_filter.trans (and_iff_right_of_imp fun hheld => ?_)).trans hpart
  obtain ⟨recipe, hrecipe, _⟩ := hpart.mp hheld
  obtain ⟨coordinate, hcoordinate, _⟩ := Option.map_eq_some_iff.mp hrecipe
  have hmem : owner.cell ∈ tree.cellIds := mem_cellIds (contains_of_coordinate? hcoordinate)
  exact List.mem_flatMap.mpr ⟨owner.cell, hmem, CellId.mem_coordinates.mpr rfl⟩

def sharesNone (tree : RegionTree) : Bool :=
  (List.range tree.network.lengths.size).all fun index => (tree.sharers index).length ≤ 1

theorem Sound.unshared (hsound : tree.Sound) (hnone : tree.sharesNone = true) : tree.Unshared := by
  intro lower first second hfirst hsecond
  obtain ⟨recipe, hrecipe, hbuilt⟩ := hfirst
  have hlt := (hsound.network.laid.older.le_of_builtOf hbuilt).trans_lt (hsound.recipe?_lt hrecipe)
  have hlength := List.all_eq_true.mp hnone lower.index (List.mem_range.mpr hlt)
  have hmem := (hsound.mem_sharers _ _).mpr ⟨recipe, hrecipe, hbuilt⟩
  have hmem' := (hsound.mem_sharers _ _).mpr hsecond
  generalize tree.sharers lower.index = owners at hlength hmem hmem'
  match owners with
  | [] => contradiction
  | [only] => rw [List.mem_singleton.mp hmem, List.mem_singleton.mp hmem']
  | _ :: _ :: _ => simp at hlength

/-- A cell below a root moves below its sibling; its recipe on one edge sums up a span of the cell
two generations above, and the root's own recipe on that edge spans its children. -/
def movedBelow : List TreeAction :=
  ["a", "b", "c", "d", "e", "f", "g", "h", "i", "j", "k"].map (fun name =>
    .edit (.make name (.constant 0.0))) ++
  [.edit (.make "across" .childrenMax), .edit (.make "above" (.ancestorSpan 2 1.0)),
    .edit (.make "sum" (.binary .add "above" "a")),
    .edit (.createRoot ⟨"b", "across", "c", "d"⟩), .edit (.createCell ⟨"e", "f", "g", "h"⟩),
    .edit (.createCell ⟨"i", "sum", "j", "k"⟩), .edit (.append ⟨0⟩ ⟨1⟩), .edit (.append ⟨0⟩ ⟨2⟩),
    .edit (.insert ⟨1⟩ ⟨2⟩ 0)]

theorem movedBelow_reads :
    (acted movedBelow).network.prerequisites ⟨11⟩ = [⟨⟨1⟩, .x, .beta⟩] ∧
      (acted movedBelow).network.prerequisites ⟨12⟩ = [⟨⟨0⟩, .x, .alpha⟩, ⟨⟨0⟩, .x, .beta⟩] := by
  have hdirect : ∀ name owner, TreeAction.bind name owner ∉ movedBelow := by simp [movedBelow]
  have hnone : (movedBelow.inits.all fun earlier => (acted earlier).sharesNone) = true := by
    decide +kernel
  have hunshared : ∀ earlier, earlier <+: movedBelow → (acted earlier).Unshared :=
    fun earlier hearlier => (Sound.acted earlier).unshared
      (List.all_eq_true.mp hnone earlier ((List.mem_inits _ _).mpr hearlier))
  have hplaces : ⟨⟨0⟩, .x, .beta⟩ ∈ (acted movedBelow).sharers 11 ∧
      ⟨⟨2⟩, .x, .beta⟩ ∈ (acted movedBelow).sharers 12 ∧
      (acted movedBelow).children ⟨0⟩ = [⟨1⟩] ∧ (acted movedBelow).ancestor? 2 ⟨2⟩ = some ⟨0⟩ := by
    decide +kernel
  have hreaches : (acted movedBelow).network.reach? ⟨11⟩ = some .children ∧
      (acted movedBelow).network.reach? ⟨12⟩ = some (.ancestor 2) := by decide +kernel
  obtain ⟨hacross, habove, hchildren, hancestor⟩ := hplaces
  have hsound := Sound.acted movedBelow
  have hreads := parts_read_surroundings hdirect hunshared
    ((hsound.mem_sharers ⟨11⟩ _).mp hacross)
  have hreads' := parts_read_surroundings hdirect hunshared
    ((hsound.mem_sharers ⟨12⟩ _).mp habove)
  obtain ⟨bound, hbound⟩ := exists_of_reach?_children hreaches.1
  obtain ⟨span, hspan, hgenerations⟩ := exists_of_reach?_ancestor hreaches.2
  rw [hreads.2 bound hbound, hreads'.1 span hspan, hgenerations, hchildren, hancestor]
  exact ⟨rfl, rfl⟩

end RegionTree

end RegionLayout
