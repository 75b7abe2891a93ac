import RegionLayout.Proofs.Length.Reach
import RegionLayout.Proofs.Tree.Forest

/-!
Binding cells anew. As long as no length is part of the recipes of two coordinates, binding the
recipes of some cells has their lengths read what they reach for from there, and no length of any
other cell's recipes read something else.
-/

namespace RegionLayout

namespace RegionTree

open Network

def recipe? (tree : RegionTree) (owner : CoordinateId) : Option LengthId :=
  (tree.coordinate? owner).map (·.recipe)

/-- A length is the recipe of a coordinate, or the recipe is built of it. -/
def PartOf (tree : RegionTree) (lower : LengthId) (owner : CoordinateId) : Prop :=
  ∃ recipe, tree.recipe? owner = some recipe ∧ tree.network.BuiltOf recipe lower

/-- No length is part of the recipes of two coordinates. -/
def Unshared (tree : RegionTree) : Prop :=
  ∀ lower first second, tree.PartOf lower first → tree.PartOf lower second → first = second

/-- All lengths that are part of a coordinate's recipe read what they reach for from there. -/
def AimedAt (tree : RegionTree) (owner : CoordinateId) : Prop :=
  ∀ lower reach, tree.PartOf lower owner → tree.network.reach? lower = some reach →
    tree.network.reads lower = reach.targets owner (tree.surroundings owner.cell)

/-- Every recipe is in the network, and operands are older than what they are built into. -/
structure Rooted (tree : RegionTree) : Prop where
  older : tree.network.Older
  bounded : ∀ owner recipe, tree.recipe? owner = some recipe →
    recipe.index < tree.network.lengths.size

/-- Every recipe is in the network, with parts of its own. -/
structure Apart (tree : RegionTree) : Prop extends Rooted tree where
  unshared : tree.Unshared

/-- Some coordinates have been bound anew. A length that is part of the recipe of one of them, and
of no other recipe, has been bound for its owner; a length that is part of none is as it was. -/
structure Rebinding (owners : CoordinateId → Prop) (before after : RegionTree) : Prop where
  cells : after.cells = before.cells
  sameReach : SameReach before.network after.network
  bound : before.Rooted → ∀ lower owner, owners owner → before.PartOf lower owner →
    (∀ other, before.PartOf lower other → other = owner) →
      SameButTally ((before.network.formula? lower).map
        (·.boundFor owner (before.surroundings owner.cell))) (after.network.formula? lower)
  others : before.Rooted → ∀ lower, (∀ owner, owners owner → ¬ before.PartOf lower owner) →
    SameButTally (before.network.formula? lower) (after.network.formula? lower)

section Rebinding

variable {tree before middle after : RegionTree} {owners others : CoordinateId → Prop}
  {owner : CoordinateId} {lower : LengthId}

theorem recipe?_congr (hcells : after.cells = before.cells) (owner : CoordinateId) :
    after.recipe? owner = before.recipe? owner := by
  rw [recipe?, coordinate?_congr hcells, recipe?]

theorem partOf_congr (hrecipe : after.recipe? owner = before.recipe? owner)
    (hsame : SameReach before.network after.network) :
    after.PartOf lower owner ↔ before.PartOf lower owner := by
  rw [PartOf, PartOf, hsame.builtOf, hrecipe]

theorem SameLinks.surroundings (hlinks : SameLinks before after) (id : CellId) :
    after.surroundings id = before.surroundings id := by
  rw [RegionTree.surroundings, ancestors_congr hlinks.size fun other _ => hlinks.parent other,
    RegionTree.surroundings]
  simp only [previousSibling, hlinks.parent, hlinks.children]

theorem surroundings_congr (hcells : after.cells = before.cells) (id : CellId) :
    after.surroundings id = before.surroundings id :=
  (SameLinks.of_cells hcells).surroundings id

theorem Rooted.congr (hrooted : before.Rooted)
    (hrecipe : ∀ owner, after.recipe? owner = before.recipe? owner)
    (hsame : SameReach before.network after.network) : after.Rooted where
  older upper lower hmem := hrooted.older upper lower (hsame.operands upper ▸ hmem)
  bounded owner recipe hfound := by
    rw [hsame.size]
    exact hrooted.bounded owner recipe ((hrecipe owner).symm.trans hfound)

theorem Apart.congr (hapart : before.Apart)
    (hrecipe : ∀ owner, after.recipe? owner = before.recipe? owner)
    (hsame : SameReach before.network after.network) : after.Apart where
  toRooted := hapart.toRooted.congr hrecipe hsame
  unshared lower first second hfirst hsecond := hapart.unshared lower first second
    ((partOf_congr (hrecipe first) hsame).mp hfirst)
    ((partOf_congr (hrecipe second) hsame).mp hsecond)

namespace Rebinding

theorem partOf_iff (hrebinding : Rebinding owners before after) :
    after.PartOf lower owner ↔ before.PartOf lower owner :=
  partOf_congr (recipe?_congr hrebinding.cells owner) hrebinding.sameReach

theorem refl (tree : RegionTree) : Rebinding (fun _ => False) tree tree :=
  ⟨rfl, .refl tree.network, fun _ _ _ => False.elim, fun _ _ _ => .refl _⟩

theorem trans (hfirst : Rebinding owners before middle) (hsecond : Rebinding others middle after) :
    Rebinding (fun owner => owners owner ∨ others owner) before after where
  cells := hsecond.cells.trans hfirst.cells
  sameReach := hfirst.sameReach.trans hsecond.sameReach
  bound hrooted lower owner howner hpart hsole := by
    have hrooted' := hrooted.congr (recipe?_congr hfirst.cells) hfirst.sameReach
    have hfirst_others : ¬ owners owner →
        SameButTally (before.network.formula? lower) (middle.network.formula? lower) :=
      fun hout => hfirst.others hrooted lower fun other hother hpart' =>
        hout (hsole other hpart' ▸ hother)
    by_cases hlast : others owner
    · have hbound := hsecond.bound hrooted' lower owner hlast (hfirst.partOf_iff.mpr hpart)
        fun other hother => hsole other (hfirst.partOf_iff.mp hother)
      rw [surroundings_congr hfirst.cells] at hbound
      refine SameButTally.trans ?_ hbound
      by_cases hearlier : owners owner
      · exact (hfirst.bound hrooted lower owner hearlier hpart hsole).map_boundFor_twice
      · exact (hfirst_others hearlier).map_boundFor owner _
    · refine (hfirst.bound hrooted lower owner (howner.resolve_right hlast) hpart hsole).trans ?_
      exact hsecond.others hrooted' lower fun other hother hpart' =>
        hlast (hsole other (hfirst.partOf_iff.mp hpart') ▸ hother)
  others hrooted lower hout := by
    have hrooted' := hrooted.congr (recipe?_congr hfirst.cells) hfirst.sameReach
    refine (hfirst.others hrooted lower fun owner howner => hout owner (.inl howner)).trans ?_
    exact hsecond.others hrooted' lower fun owner howner hpart =>
      hout owner (.inr howner) (hfirst.partOf_iff.mp hpart)

theorem congr (hrebinding : Rebinding owners before after)
    (howners : ∀ owner, (before.recipe? owner).isSome = true → (owners owner ↔ others owner)) :
    Rebinding others before after := by
  have hiff : ∀ {lower owner}, before.PartOf lower owner → (owners owner ↔ others owner) := by
    rintro lower owner ⟨recipe, hrecipe, _⟩
    exact howners owner (Option.isSome_of_eq_some hrecipe)
  refine ⟨hrebinding.cells, hrebinding.sameReach, fun hrooted lower owner hother hpart hsole => ?_,
    fun hrooted lower hout => ?_⟩
  · exact hrebinding.bound hrooted lower owner ((hiff hpart).mpr hother) hpart hsole
  · exact hrebinding.others hrooted lower fun owner howner hpart =>
      hout owner ((hiff hpart).mp howner) hpart

theorem foldl {α : Type} {items : List α} {step : RegionTree → α → RegionTree}
    {part : α → CoordinateId → Prop}
    (hstep : ∀ item ∈ items, ∀ state : RegionTree, state.cells = tree.cells →
      Rebinding (part item) state (step state item)) :
    Rebinding (fun owner => ∃ item ∈ items, part item owner) tree (items.foldl step tree) := by
  induction items generalizing tree with
  | nil => simpa using refl tree
  | cons first rest ih =>
      have hfirst := hstep first List.mem_cons_self tree rfl
      have hrest := ih fun item hitem state hcells =>
        hstep item (List.mem_cons_of_mem _ hitem) state (hcells.trans hfirst.cells)
      simpa only [List.foldl_cons, List.exists_mem_cons_iff] using hfirst.trans hrest

/-- Where no length is shared, whatever is bound anew reads what it reaches for, and whatever read
it before still does. -/
theorem aimedAt (hrebinding : Rebinding owners before after) (hapart : before.Apart)
    (haimed : owners owner ∨ before.AimedAt owner) : after.AimedAt owner := by
  intro lower reach hpart hreach
  rw [hrebinding.partOf_iff] at hpart
  rw [hrebinding.sameReach.reach] at hreach
  rw [surroundings_congr hrebinding.cells]
  have hsole : ∀ other, before.PartOf lower other → other = owner := fun other hother =>
    hapart.unshared lower other owner hother hpart
  by_cases howner : owners owner
  · have hbound := hrebinding.bound hapart.toRooted lower owner howner hpart hsole
    exact reads_of_bound hbound hreach
  · have hsame := hrebinding.others hapart.toRooted lower fun other hother hpart' =>
      howner (hsole other hpart' ▸ hother)
    rw [reads_of_sameButTally hsame (Option.isSome_of_eq_some hreach)]
    exact haimed.resolve_left howner lower reach hpart hreach

theorem apart_before (hrebinding : Rebinding owners before after) (hapart : after.Apart) :
    before.Apart :=
  hapart.congr (recipe?_congr hrebinding.cells.symm) hrebinding.sameReach.symm

end Rebinding

end Rebinding

/-! Binding for one coordinate, for the four of a cell, and for many cells. -/

section Bind

variable {tree : RegionTree} (audience : Audience)

theorem rebinding_bind {owner : CoordinateId} {recipe : LengthId}
    (hrecipe : tree.recipe? owner = some recipe) :
    Rebinding (· = owner) tree (tree.mapNetwork fun network =>
      network.bind audience owner (tree.surroundings owner.cell) recipe) := by
  have hbinds : Binds owner (tree.surroundings owner.cell)
      (tree.network.Within tree.network.lengths.size recipe) tree.network
      (tree.network.bind audience owner (tree.surroundings owner.cell) recipe) :=
    binds_bind audience recipe tree.network
  have hscope : tree.Rooted → ∀ lower,
      (tree.network.Within tree.network.lengths.size recipe lower ↔ tree.PartOf lower owner) := by
    intro hrooted lower
    rw [within_iff_builtOf hrooted.older (hrooted.bounded owner recipe hrecipe), PartOf]
    simp [hrecipe]
  refine ⟨rfl, hbinds.sameReach, fun hrooted lower other heq hpart _ => ?_,
    fun hrooted lower hout => ?_⟩
  · subst heq
    exact hbinds.bound lower ((hscope hrooted lower).mpr hpart)
  · exact hbinds.others lower fun hin => hout owner rfl ((hscope hrooted lower).mp hin)

theorem mapNetwork_foldl {α : Type} (step : Network → α → Network) (items : List α)
    (tree : RegionTree) : (tree.mapNetwork fun network => items.foldl step network) =
      items.foldl (fun tree item => tree.mapNetwork fun network => step network item) tree := by
  induction items generalizing tree with
  | nil => rfl
  | cons first rest ih => exact ih (tree.mapNetwork fun network => step network first)

theorem rebinding_bindCell (tree : RegionTree) (id : CellId) :
    Rebinding (·.cell = id) tree (bindCell audience tree id) := by
  unfold bindCell
  split
  next hnone =>
    refine (Rebinding.refl tree).congr fun owner howner => iff_of_false not_false fun heq => ?_
    rw [recipe?, coordinate?, heq, hnone] at howner
    contradiction
  next cell hcell =>
    dsimp only
    rw [mapNetwork_foldl]
    have hbound : Rebinding
        (fun owner => ∃ entry ∈ id.coordinates.zip cell.coordinates, owner = entry.1)
        tree ((id.coordinates.zip cell.coordinates).foldl (fun state entry =>
          state.mapNetwork fun network =>
            network.bind audience entry.1 (tree.surroundings id) entry.2.recipe) tree) := by
      refine .foldl fun entry hentry state hcells => ?_
      obtain ⟨rfl, hcoordinate⟩ := CellId.of_mem_zip_coordinates hentry
      rw [← surroundings_congr hcells]
      refine rebinding_bind audience ?_
      rw [recipe?_congr hcells, recipe?, coordinate?, hcell, Option.map_some, hcoordinate,
        Option.map_some]
    refine hbound.congr fun owner _ => ⟨?_, fun howner => ?_⟩
    · rintro ⟨entry, hentry, rfl⟩
      exact (CellId.of_mem_zip_coordinates hentry).1
    · exact ⟨(owner, cell.coordinate owner.axis owner.edge),
        howner ▸ CellId.mem_zip_coordinates owner.cell cell owner.axis owner.edge, rfl⟩

/-- Binding cells anew binds all their lengths at their place. -/
theorem rebinding_rebind (tree : RegionTree) (ids : List CellId) :
    Rebinding (·.cell ∈ ids) tree (tree.rebind ids) :=
  (Rebinding.foldl fun id _ state _ => rebinding_bindCell tree.audience state id).congr
    fun owner _ => by simp

end Bind

end RegionTree

end RegionLayout
