import RegionLayout.Proofs.Tree.Forest

/-!
Cascades of tares. A near edge whose absolute value moved waits to pass it on to the children of its
cell; nothing is passed on where it did not move. Every cell is passed at most once, and none but
those below the start are touched.
-/

namespace RegionLayout

open Relation

namespace RegionTree

variable {tree stored after : RegionTree} {id other : CoordinateId} {axis : Axis} {child : CellId}

def tare (tree : RegionTree) (id : CoordinateId) : Option Float :=
  (tree.coordinate? id).bind (·.tare)

theorem tare_congr (hsame : after.coordinate? id = tree.coordinate? id) :
    after.tare id = tree.tare id := by
  rw [tare, hsame, tare]

theorem absolute_congr (hsame : after.coordinate? id = tree.coordinate? id) :
    after.absolute id = tree.absolute id := by
  rw [absolute, hsame, absolute]

theorem exists_coordinate_of_contains (hknown : tree.contains id.cell = true) :
    ∃ coordinate, tree.coordinate? id = some coordinate := by
  obtain ⟨cell, hcell⟩ := Option.isSome_iff_exists.mp hknown
  exact ⟨cell.coordinate id.axis id.edge, coordinate?_eq_some_iff.mpr ⟨cell, hcell, rfl⟩⟩

/-! One value stored. -/

/-- One coordinate was stored, and whether its absolute value moved. -/
structure Stores (before after : RegionTree) (id : CoordinateId) (moved : Bool) : Prop
    extends SameLinks before after where
  others : ∀ other, other ≠ id → after.coordinate? other = before.coordinate? other
  unmoved : moved = false → after.absolute id = before.absolute id
  known : moved = true → before.contains id.cell = true

theorem contains_of_coordinate? {coordinate : Coordinate}
    (hcoordinate : tree.coordinate? id = some coordinate) : tree.contains id.cell = true := by
  obtain ⟨cell, hcell, _⟩ := coordinate?_eq_some_iff.mp hcoordinate
  rw [contains, hcell, Option.isSome_some]

theorem stores_settle {old : Coordinate} (hold : tree.coordinate? id = some old) (new : Coordinate)
    (habsolute : new.absolute = old.absolute) :
    Stores tree (tree.settle id new).2 id (tree.settle id new).1 ∧
      (tree.settle id new).2.tare id = new.tare := by
  have hstored : (tree.settle id new).2.coordinate? id = some new.refresh := by
    rw [coordinate?_settle, if_pos rfl, hold, Option.map_some]
  refine ⟨⟨⟨?_, fun cell => ?_⟩, fun other hne => ?_, fun hmoved => ?_,
    fun _ => contains_of_coordinate? hold⟩, ?_⟩
  · unfold settle
    dsimp only
    split <;> exact size_editCell tree id.cell _
  · rw [← links_setCoordinate tree id new.refresh cell]
    unfold settle
    dsimp only
    split <;> rfl
  · rw [coordinate?_settle, if_neg hne]
  · have hfresh : new.isStale = false := by
      unfold settle at hmoved
      dsimp only at hmoved
      split at hmoved
      next => contradiction
      next hfresh => exact Bool.eq_false_iff.mpr hfresh
    have hequal : (new.absolute == new.sum) = true := by
      simpa [Coordinate.isStale, bne] using hfresh
    rw [absolute, hstored, absolute, hold, Option.bind_some, Option.bind_some, Coordinate.refresh,
      if_pos hequal, habsolute]
  · obtain ⟨value, hrefresh⟩ := refresh_eq new
    rw [tare, hstored, Option.bind_some, hrefresh]

theorem Stores.refl (tree : RegionTree) (id : CoordinateId) : Stores tree tree id false :=
  ⟨.refl tree, fun _ _ => rfl, fun _ => rfl, nofun⟩

theorem stores_storeTare (tree : RegionTree) (id : CoordinateId) (tare : Option Float) :
    Stores tree (tree.storeTare id tare).2 id (tree.storeTare id tare).1 ∧
      (tree.contains id.cell = true → (tree.storeTare id tare).2.tare id = tare) := by
  unfold storeTare
  cases hold : tree.coordinate? id with
  | none =>
      refine ⟨.refl tree id, fun hknown => ?_⟩
      obtain ⟨coordinate, hcoordinate⟩ := exists_coordinate_of_contains hknown
      exact absurd (hold.symm.trans hcoordinate) nofun
  | some old =>
      obtain ⟨hstores, htare⟩ := stores_settle hold { old with tare } rfl
      exact ⟨hstores, fun _ => htare⟩

theorem stores_storeRelative (tree : RegionTree) (id : CoordinateId) (value : Option Float) :
    Stores tree (tree.storeRelative id value).2 id (tree.storeRelative id value).1 ∧
      (tree.storeRelative id value).2.tare id = tree.tare id := by
  unfold storeRelative
  cases hold : tree.coordinate? id with
  | none => exact ⟨.refl tree id, rfl⟩
  | some old =>
      have htare : tree.tare id = old.tare := by rw [tare, hold, Option.bind_some]
      dsimp only
      split
      · exact htare ▸ stores_settle hold old rfl
      · have hsent : (tree.send (.relative id old.relative value)).coordinate? id = some old := hold
        obtain ⟨hstores, hstored⟩ := stores_settle hsent { old with relative := value } rfl
        exact ⟨⟨(sameLinks_send _ _).trans hstores.toSameLinks, hstores.others, hstores.unmoved,
          hstores.known⟩, htare ▸ hstored⟩

/-! Tares passed on to children. -/

/-- A tare was given to both edges of some cells on one axis; those near edges that moved come
back. -/
structure HandsDown (before after : RegionTree) (axis : Axis) (tare : Option Float)
    (cells : List CellId) (moved : List CoordinateId) : Prop extends SameLinks before after where
  given : ∀ id : CoordinateId, id.cell ∈ cells → id.axis = axis →
    before.contains id.cell = true → after.tare id = tare
  others : ∀ id : CoordinateId, id.cell ∉ cells ∨ id.axis ≠ axis →
    after.coordinate? id = before.coordinate? id
  unmoved : ∀ cell : CellId, cell.coordinate axis .alpha ∉ moved →
    after.absolute (cell.coordinate axis .alpha) = before.absolute (cell.coordinate axis .alpha)
  near : ∀ alpha : CoordinateId, alpha ∈ moved → alpha = alpha.cell.coordinate axis .alpha
  listed : (moved.map (·.cell)).Sublist cells.reverse

theorem HandsDown.of_stores {middle : RegionTree} {tare : Option Float} {moved more : Bool}
    (hfirst : Stores tree middle (child.coordinate axis .alpha) moved)
    (hnear : tree.contains child = true → middle.tare (child.coordinate axis .alpha) = tare)
    (hsecond : Stores middle after (child.coordinate axis .beta) more)
    (hfar : middle.contains child = true → after.tare (child.coordinate axis .beta) = tare) :
    HandsDown tree after axis tare [child]
      (if moved then [child.coordinate axis .alpha] else []) where
  toSameLinks := hfirst.toSameLinks.trans hsecond.toSameLinks
  given id hid haxis hknown := by
    obtain ⟨cell, side, edge⟩ := id
    obtain rfl := List.mem_singleton.mp hid
    subst haxis
    cases edge with
    | alpha =>
        have hkept := hsecond.others (cell.coordinate side .alpha) (by simp [CellId.coordinate])
        exact (tare_congr hkept).trans (hnear hknown)
    | beta => exact hfar ((hfirst.contains cell).trans hknown)
  others id hother := by
    have hne : ∀ edge, id ≠ child.coordinate axis edge := by
      rintro edge rfl
      simp [CellId.coordinate] at hother
    rw [hsecond.others id (hne .beta), hfirst.others id (hne .alpha)]
  unmoved cell hcell := by
    have hsame := absolute_congr (hsecond.others (cell.coordinate axis .alpha) (by
      simp [CellId.coordinate]))
    by_cases heq : cell = child
    · subst heq
      refine hsame.trans (hfirst.unmoved (Bool.eq_false_iff.mpr fun hmoved => hcell ?_))
      rw [if_pos hmoved]
      exact List.mem_singleton_self _
    · refine hsame.trans (absolute_congr (hfirst.others _ ?_))
      simpa [CellId.coordinate] using heq
  near alpha hmoved := by
    split at hmoved
    next =>
      rw [List.mem_singleton.mp hmoved]
      rfl
    next => contradiction
  listed := by
    split
    · exact List.Sublist.refl _
    · exact List.nil_sublist _

theorem handsDown_tareChild (tree : RegionTree) (axis : Axis) (tare : Option Float)
    (child : CellId) :
    HandsDown tree (tree.tareChild axis tare child).2 axis tare [child]
      (tree.tareChild axis tare child).1 := by
  obtain ⟨hfirst, hnear⟩ := stores_storeTare tree (child.coordinate axis .alpha) tare
  obtain ⟨hsecond, hfar⟩ := stores_storeTare
    (tree.storeTare (child.coordinate axis .alpha) tare).2 (child.coordinate axis .beta) tare
  exact .of_stores hfirst hnear hsecond hfar

theorem HandsDown.cons {middle : RegionTree} {tare : Option Float} {rest : List CellId}
    {first later : List CoordinateId} (hfirst : HandsDown tree middle axis tare [child] first)
    (hlater : HandsDown middle after axis tare rest later) :
    HandsDown tree after axis tare (child :: rest) (later ++ first) where
  toSameLinks := hfirst.toSameLinks.trans hlater.toSameLinks
  given id hid haxis hknown := by
    by_cases hrest : id.cell ∈ rest
    · exact hlater.given id hrest haxis ((hfirst.contains id.cell).trans hknown)
    · obtain heq := (List.mem_cons.mp hid).resolve_right hrest
      rw [tare_congr (hlater.others id (.inl hrest))]
      exact hfirst.given id (List.mem_singleton.mpr heq) haxis hknown
  others id hother := by
    have hout : (id.cell ∉ rest ∨ id.axis ≠ axis) ∧ (id.cell ∉ [child] ∨ id.axis ≠ axis) := by
      simp only [List.mem_cons, not_or, List.not_mem_nil, or_false] at hother ⊢
      tauto
    rw [hlater.others id hout.1, hfirst.others id hout.2]
  unmoved cell hcell := by
    rw [List.mem_append, not_or] at hcell
    rw [hlater.unmoved cell hcell.1, hfirst.unmoved cell hcell.2]
  near alpha halpha := by
    rcases List.mem_append.mp halpha with hlate | hearly
    · exact hlater.near alpha hlate
    · exact hfirst.near alpha hearly
  listed := by
    rw [List.map_append, List.reverse_cons]
    exact hlater.listed.append hfirst.listed

def handDown (axis : Axis) (tare : Option Float) (state : List CoordinateId × RegionTree)
    (child : CellId) : List CoordinateId × RegionTree :=
  ((state.2.tareChild axis tare child).1 ++ state.1, (state.2.tareChild axis tare child).2)

theorem tareChildren_eq (tree : RegionTree) (alpha : CoordinateId) : tree.tareChildren alpha =
    (tree.children alpha.cell).foldl (handDown alpha.axis (tree.absolute alpha)) ([], tree) := rfl

theorem handsDown_foldl (axis : Axis) (tare : Option Float) (cells : List CellId)
    (state : List CoordinateId × RegionTree) :
    ∃ moved, (cells.foldl (handDown axis tare) state).1 = moved ++ state.1 ∧
      HandsDown state.2 (cells.foldl (handDown axis tare) state).2 axis tare cells moved := by
  induction cells generalizing state with
  | nil =>
      exact ⟨[], rfl, .refl state.2, nofun, fun _ _ => rfl, fun _ _ => rfl, nofun, .slnil⟩
  | cons child rest ih =>
      obtain ⟨moved, hmoved, hlater⟩ := ih (handDown axis tare state child)
      exact ⟨_, hmoved.trans (List.append_assoc _ _ _).symm,
        (handsDown_tareChild state.2 axis tare child).cons hlater⟩

theorem handsDown_tareChildren (tree : RegionTree) (alpha : CoordinateId) :
    HandsDown tree (tree.tareChildren alpha).2 alpha.axis (tree.absolute alpha)
      (tree.children alpha.cell) (tree.tareChildren alpha).1 := by
  obtain ⟨moved, hmoved, hhands⟩ := handsDown_foldl alpha.axis (tree.absolute alpha)
    (tree.children alpha.cell) ([], tree)
  rw [List.append_nil] at hmoved
  rw [tareChildren_eq, hmoved]
  exact hhands

/-! Whole cascades. -/

/-- Every tare is where the near edge above it is, but for the tares below near edges that are still
ahead, and for those that are late. -/
def FollowsBut (tree : RegionTree) (ahead : List CoordinateId)
    (late : CoordinateId → Prop) : Prop :=
  ∀ (id : CoordinateId) (parent : CellId), tree.IsParent parent id.cell →
    parent.coordinate id.axis .alpha ∉ ahead → ¬ late id →
      tree.tare id = tree.absolute (parent.coordinate id.axis .alpha)

section Cascade

variable {start : CellId} {visited : List CellId} {alpha : CoordinateId}
  {ahead : List CoordinateId} {late : CoordinateId → Prop} {steps : Nat}

theorem Explores.tareChildren (hforest : tree.Forest)
    (hexplores : Explores tree start visited (alpha.cell :: ahead.map (·.cell))) :
    Explores (tree.tareChildren alpha).2 start (alpha.cell :: visited)
      (((tree.tareChildren alpha).1 ++ ahead).map (·.cell)) := by
  have hhands := handsDown_tareChildren tree alpha
  rw [List.map_append]
  refine (hexplores.step hforest ?_ fun child hchild => ?_).sameLinks hhands.toSameLinks
  · exact hhands.listed.nodup (List.nodup_reverse.mpr (hforest.nodup alpha.cell))
  · exact (hforest.mem_children_iff _ _).mp (List.mem_reverse.mp (hhands.listed.subset hchild))

theorem FollowsBut.tareChildren (hforest : tree.Forest)
    (hnear : alpha = alpha.cell.coordinate axis .alpha)
    (hfollows : tree.FollowsBut (alpha :: ahead) late) :
    (tree.tareChildren alpha).2.FollowsBut ((tree.tareChildren alpha).1 ++ ahead) late := by
  have haxis : alpha.axis = axis := congrArg (·.axis) hnear
  have hhands := handsDown_tareChildren tree alpha
  rw [haxis] at hhands
  intro id parent hparent hahead hlate
  rw [List.mem_append, not_or] at hahead
  have hparent : tree.IsParent parent id.cell :=
    (Forest.isParent_of_sameLinks hhands.toSameLinks).mp hparent
  have hedge : ∀ cell, tree.IsParent cell id.cell → cell = parent :=
    fun cell hcell => Option.some.inj (hcell.symm.trans hparent)
  by_cases hbelow : id.cell ∈ tree.children alpha.cell ∧ id.axis = axis
  · -- A child of the cell whose near edge is passed on; that edge is not its own child's.
    obtain ⟨hchild, hside⟩ := hbelow
    obtain rfl := hedge alpha.cell ((hforest.mem_children_iff _ _).mp hchild)
    have hself : alpha.cell ∉ tree.children alpha.cell := fun hself =>
      hforest.acyclic.irreflexive alpha.cell ((hforest.mem_children_iff _ _).mp hself)
    rw [hhands.given id hchild hside (contains_of_isParent hparent), hside, ← hnear,
      absolute_congr (hhands.others alpha (.inl hself))]
  · have hother : id.cell ∉ tree.children alpha.cell ∨ id.axis ≠ axis := by tauto
    have hunmoved : (tree.tareChildren alpha).2.absolute (parent.coordinate id.axis .alpha) =
        tree.absolute (parent.coordinate id.axis .alpha) := by
      by_cases hside : id.axis = axis
      · rw [hside] at hahead ⊢
        exact hhands.unmoved parent hahead.1
      · exact absolute_congr (hhands.others _ (.inr hside))
    rw [tare_congr (hhands.others id hother), hunmoved]
    refine hfollows id parent hparent (fun hmem => ?_) hlate
    rcases List.mem_cons.mp hmem with heq | hrest
    · have hcell : parent = alpha.cell := congrArg (·.cell) heq
      have hside : id.axis = alpha.axis := congrArg (·.axis) heq
      exact hbelow ⟨hcell ▸ (hforest.mem_children_iff _ _).mpr hparent, hside.trans haxis⟩
    · exact hahead.2 hrest

theorem FollowsBut.cascade (hforest : tree.Forest)
    (hexplores : Explores tree start visited (ahead.map (·.cell)))
    (hknown : tree.contains start = true)
    (hnear : ∀ alpha ∈ ahead, alpha = alpha.cell.coordinate axis .alpha)
    (henough : tree.size ≤ visited.length + steps) (hfollows : tree.FollowsBut ahead late) :
    (RegionTree.cascade steps ahead tree).FollowsBut [] late := by
  -- Each step takes a cell that was not met before, so that nothing is ahead when steps run out.
  induction steps generalizing tree visited ahead with
  | zero =>
      have hbound := hexplores.length_le hknown
      rw [List.length_map] at hbound
      obtain rfl : ahead = [] := List.length_eq_zero_iff.mp (by omega)
      exact hfollows
  | succ steps ih =>
      cases ahead with
      | nil => exact hfollows
      | cons alpha ahead =>
          have hhands := handsDown_tareChildren tree alpha
          obtain ⟨hfirst, hrest⟩ := List.forall_mem_cons.mp hnear
          have haxis : alpha.axis = axis := congrArg (·.axis) hfirst
          have hlater := hfollows.tareChildren hforest hfirst
          have hfurther := hexplores.tareChildren hforest
          rw [RegionTree.cascade]
          generalize tree.tareChildren alpha = passed at hhands hlater hfurther ⊢
          obtain ⟨moved, after⟩ := passed
          refine ih (hforest.sameLinks hhands.toSameLinks) hfurther ?_ ?_ ?_ hlater
          · exact (hhands.contains start).trans hknown
          · intro other hother
            rcases List.mem_append.mp hother with hmoved | hother
            · exact haxis ▸ hhands.near other hmoved
            · exact hrest other hother
          · rw [show after.size = tree.size from hhands.size, List.length_cons]
            omega

/-- Cells that are not below the start of a cascade are as they were. -/
theorem coordinate?_cascade (hforest : tree.Forest)
    (hexplores : Explores tree start visited (ahead.map (·.cell)))
    (houtside : ¬ TransGen tree.IsParent start id.cell) :
    (RegionTree.cascade steps ahead tree).coordinate? id = tree.coordinate? id := by
  induction steps generalizing tree visited ahead with
  | zero => rfl
  | succ steps ih =>
      cases ahead with
      | nil => rfl
      | cons alpha ahead =>
          have hhands := handsDown_tareChildren tree alpha
          rw [RegionTree.cascade, ih (hforest.sameLinks hhands.toSameLinks)
            (hexplores.tareChildren hforest) fun hbelow => houtside (TransGen.mono
              (fun _ _ => (Forest.isParent_of_sameLinks hhands.toSameLinks).mp) _ _ hbelow)]
          refine hhands.others id (.inl fun hchild => houtside ?_)
          have hbelow := hexplores.below alpha.cell (List.mem_append_right _ List.mem_cons_self)
          exact TransGen.tail' hbelow ((hforest.mem_children_iff _ _).mp hchild)

end Cascade

/-! One coordinate stored, and what follows from it. -/

theorem Explores.near (tree : RegionTree) (id : CoordinateId) :
    Explores tree id.cell [] ([id].map (·.cell)) :=
  .begins tree id.cell

/-- Passes on what was stored, if it moved. -/
def spread (id : CoordinateId) : Bool × RegionTree → RegionTree
  | (true, tree) => tree.cascadeFrom id
  | (false, tree) => tree

theorem tareAs_eq (tree : RegionTree) (id : CoordinateId) (tare : Option Float) :
    tree.tareAs id tare = spread id (tree.storeTare id tare) := by
  unfold tareAs
  rcases tree.storeTare id tare with ⟨moved, stored⟩
  cases moved <;> rfl

theorem storeResult_eq (tree : RegionTree) (id : CoordinateId) (value : Option Float) :
    tree.storeResult id value = spread id (tree.storeRelative id value) := by
  unfold storeResult
  rcases tree.storeRelative id value with ⟨moved, stored⟩
  cases moved <;> rfl

section Spread

variable {late late' : CoordinateId → Prop} {moved : Bool}

theorem FollowsBut.cascadeFrom (hforest : tree.Forest) (hknown : tree.contains id.cell = true)
    (hfollows : tree.FollowsBut [id] late) : (tree.cascadeFrom id).FollowsBut [] late := by
  obtain ⟨cell, axis, edge⟩ := id
  cases edge with
  | alpha =>
      have hnear : ∀ alpha ∈ [CoordinateId.mk cell axis .alpha],
          alpha = alpha.cell.coordinate axis .alpha := by
        intro alpha halpha
        exact List.mem_singleton.mp halpha ▸ rfl
      exact hfollows.cascade hforest (.near tree _) hknown hnear (by simp)
  | beta =>
      intro id parent hparent _ hlate
      refine hfollows id parent hparent (fun hmem => ?_) hlate
      simp [CellId.coordinate] at hmem

/-- A stored coordinate brings its tare up to date or leaves it, and makes those below it late. -/
theorem FollowsBut.spread (hforest : tree.Forest) (hfollows : tree.FollowsBut [] late)
    (hstores : Stores tree stored id moved) (hlate : ∀ other, other ≠ id → late other → late' other)
    (htare : ∀ parent, tree.IsParent parent id.cell → ¬ late' id →
      stored.tare id = tree.absolute (parent.coordinate id.axis .alpha)) :
    (RegionTree.spread id (moved, stored)).FollowsBut [] late' := by
  have hstored : stored.FollowsBut (if moved then [id] else []) late' := by
    intro other parent hparent hahead hpunctual
    have hparent := (Forest.isParent_of_sameLinks hstores.toSameLinks).mp hparent
    by_cases hother : other = id
    · subst hother
      have hne : parent.coordinate other.axis .alpha ≠ other := by
        intro heq
        have hcell : parent = other.cell := congrArg (·.cell) heq
        exact hforest.acyclic.irreflexive parent (hcell ▸ hparent)
      rw [htare parent hparent hpunctual, absolute_congr (hstores.others _ hne)]
    · rw [tare_congr (hstores.others other hother),
        hfollows other parent hparent List.not_mem_nil fun h => hpunctual (hlate other hother h)]
      by_cases hnear : parent.coordinate other.axis .alpha = id
      · cases moved with
        | true => exact absurd (List.mem_singleton.mpr hnear) hahead
        | false => exact hnear ▸ (hstores.unmoved rfl).symm
      · exact (absolute_congr (hstores.others _ hnear)).symm
  cases moved with
  | true =>
      refine FollowsBut.cascadeFrom (hforest.sameLinks hstores.toSameLinks) ?_ hstored
      rw [hstores.contains, hstores.known rfl]
  | false => exact hstored

theorem FollowsBut.tareAs (hforest : tree.Forest) (hfollows : tree.FollowsBut [] late)
    (id : CoordinateId) (tare : Option Float) (htare : ∀ parent, tree.IsParent parent id.cell →
      tree.absolute (parent.coordinate id.axis .alpha) = tare) :
    (tree.tareAs id tare).FollowsBut [] fun other => late other ∧ other ≠ id := by
  obtain ⟨hstores, hgiven⟩ := stores_storeTare tree id tare
  rw [tareAs_eq]
  generalize tree.storeTare id tare = result at hstores hgiven
  refine hfollows.spread hforest hstores (fun other hne hlate => ⟨hlate, hne⟩)
    fun parent hparent _ => ?_
  rw [htare parent hparent, hgiven (contains_of_isParent hparent)]

theorem FollowsBut.storeResult (hforest : tree.Forest) (hfollows : tree.FollowsBut [] late)
    (value : Option Float) : (tree.storeResult id value).FollowsBut [] late := by
  obtain ⟨hstores, hkept⟩ := stores_storeRelative tree id value
  rw [storeResult_eq]
  generalize tree.storeRelative id value = result at hstores hkept
  refine hfollows.spread hforest hstores (fun _ _ hlate => hlate) fun parent hparent hpunctual => ?_
  rw [hkept, hfollows id parent hparent List.not_mem_nil hpunctual]

/-- Giving a coordinate another tare touches nothing but it and cells below it. -/
theorem coordinate?_tareAs {tare : Option Float} (hforest : tree.Forest) (hne : other ≠ id)
    (houtside : ¬ TransGen tree.IsParent id.cell other.cell) :
    (tree.tareAs id tare).coordinate? other = tree.coordinate? other := by
  obtain ⟨hstores, _⟩ := stores_storeTare tree id tare
  rw [tareAs_eq]
  generalize tree.storeTare id tare = result at hstores
  obtain ⟨moved, stored⟩ := result
  rw [← hstores.others other hne]
  cases moved with
  | true =>
      have hforest := hforest.sameLinks hstores.toSameLinks
      have houtside : ¬ TransGen stored.IsParent id.cell other.cell := fun hbelow =>
        houtside (TransGen.mono (fun _ _ => (Forest.isParent_of_sameLinks hstores.toSameLinks).mp)
          _ _ hbelow)
      show (stored.cascadeFrom id).coordinate? other = stored.coordinate? other
      unfold RegionTree.cascadeFrom
      split
      · exact coordinate?_cascade hforest (.near stored id) houtside
      · rfl
  | false => rfl

end Spread

end RegionTree

end RegionLayout
