import RegionLayout.Proofs.Tree.Cascade
import RegionLayout.Proofs.Tree.Grafting

/-!
Tares follow the near edges above them. A cell that is attached gets the tares of its new place, a
detached one loses them, and a near edge that moves takes everything below it along; so tares are
out of place only where they were set by hand below another cell.
-/

namespace RegionLayout

open Relation

theorem Cell.coordinate_relinked (cell : Cell) (parent : Option CellId) (children : List CellId)
    (axis : Axis) (edge : Edge) :
    ({ cell with parent, children } : Cell).coordinate axis edge = cell.coordinate axis edge := by
  cases axis <;> rfl

namespace RegionTree

variable {tree after : RegionTree} {parent child : CellId} {index : Nat}
  {late late' : CoordinateId → Prop}

/-- Every tare is the absolute value of the near edge above it. -/
def TaresFollow (tree : RegionTree) : Prop :=
  tree.FollowsBut [] fun _ => False

theorem FollowsBut.mono (hfollows : tree.FollowsBut [] late) (hlate : ∀ id, late id → late' id) :
    tree.FollowsBut [] late' :=
  fun id parent hparent hahead hpunctual =>
    hfollows id parent hparent hahead fun h => hpunctual (hlate id h)

/-! Changes that neither move cells nor what their values are measured from. -/

structure Still (before after : RegionTree) : Prop extends SameLinks before after where
  tare : ∀ id, after.tare id = before.tare id
  absolute : ∀ id, after.absolute id = before.absolute id

theorem Still.refl (tree : RegionTree) : Still tree tree :=
  ⟨.refl tree, fun _ => rfl, fun _ => rfl⟩

theorem Still.trans {middle : RegionTree} (hfirst : Still tree middle)
    (hsecond : Still middle after) :
    Still tree after where
  toSameLinks := hfirst.toSameLinks.trans hsecond.toSameLinks
  tare id := (hsecond.tare id).trans (hfirst.tare id)
  absolute id := (hsecond.absolute id).trans (hfirst.absolute id)

theorem Still.of_cells (hcells : after.cells = tree.cells) : Still tree after where
  toSameLinks := .of_cells hcells
  tare id := tare_congr (coordinate?_congr hcells id)
  absolute id := absolute_congr (coordinate?_congr hcells id)

theorem TaresFollow.still (hfollows : tree.TaresFollow) (hstill : Still tree after) :
    after.TaresFollow := by
  intro id parent hparent hahead hlate
  rw [hstill.tare, hstill.absolute]
  exact hfollows id parent ((Forest.isParent_of_sameLinks hstill.toSameLinks).mp hparent)
    hahead hlate

theorem still_noteEvaluated (tree : RegionTree) (names : List String) :
    Still tree (tree.noteEvaluated names) :=
  foldl_related .refl .trans (fun _ _ _ => .of_cells rfl) tree

/-- The new name of a cell is in the labels of its coordinates, and nowhere else. -/
theorem exists_coordinate?_setName (tree : RegionTree) (id : CellId) (name : Option String)
    (other : CoordinateId) : ∃ label : Coordinate → Option String,
      (tree.setName id name).coordinate? other =
        (tree.coordinate? other).map fun coordinate =>
          { coordinate with label := label coordinate } := by
  rw [coordinate?, setName, cell?_editCell, coordinate?]
  split
  · obtain ⟨_, axis, edge⟩ := other
    refine ⟨fun _ => name.map fun name => name ++ "." ++ axis.text ++ "." ++ edge.text, ?_⟩
    rw [Option.map_map, Option.map_map]
    cases axis <;> cases edge <;> rfl
  · refine ⟨(·.label), ?_⟩
    rw [Option.map_map]
    rfl

theorem still_setName (tree : RegionTree) (id : CellId) (name : Option String) :
    Still tree (tree.setName id name) := by
  refine ⟨sameLinks_setName tree id name, fun other => ?_, fun other => ?_⟩
  · obtain ⟨label, hlabel⟩ := exists_coordinate?_setName tree id name other
    rw [tare, hlabel, Option.bind_map, tare]
    rfl
  · obtain ⟨label, hlabel⟩ := exists_coordinate?_setName tree id name other
    rw [absolute, hlabel, Option.bind_map, absolute]
    rfl

theorem coordinate?_setRecipe {id : CoordinateId} {recipe : LengthId}
    (hset : tree.setRecipe id recipe = .ok after) :
    ∃ old, tree.coordinate? id = some old ∧ ∀ other, after.coordinate? other =
      if other = id then some { old with recipe, wiring := old.wiring + 1 }
      else tree.coordinate? other := by
  obtain ⟨old, hold, hafter⟩ := exists_of_setRecipe hset
  have hcells : after.cells = (tree.reassign id old recipe).cells := by
    rw [hafter, announceRecipe]
    split <;> rfl
  refine ⟨old, hold, fun other => ?_⟩
  rw [coordinate?_congr hcells, coordinate?_reassign recipe hold]

theorem still_setRecipe {id : CoordinateId} {recipe : LengthId}
    (hset : tree.setRecipe id recipe = .ok after) : Still tree after := by
  obtain ⟨old, hold, hcoordinate⟩ := coordinate?_setRecipe hset
  refine ⟨sameLinks_setRecipe hset, fun other => ?_, fun other => ?_⟩
  · rw [tare, hcoordinate, tare]
    split
    next heq => rw [heq, hold, Option.bind_some, Option.bind_some]
    next => rfl
  · rw [absolute, hcoordinate, absolute]
    split
    next heq => rw [heq, hold, Option.bind_some, Option.bind_some]
    next => rfl

/-! Attaching and detaching. -/

theorem coordinate?_editCell (tree : RegionTree) (cell : CellId) {change : Cell → Cell}
    (hsame : ∀ cell axis edge, (change cell).coordinate axis edge = cell.coordinate axis edge)
    (id : CoordinateId) : (tree.editCell cell change).coordinate? id = tree.coordinate? id := by
  rw [coordinate?, cell?_editCell, coordinate?]
  split
  · rw [Option.map_map]
    exact Option.map_congr fun cell _ => hsame cell id.axis id.edge
  · rfl

theorem coordinate?_unlink (tree : RegionTree) (parent child : CellId) (id : CoordinateId) :
    (tree.unlink parent child).coordinate? id = tree.coordinate? id :=
  (coordinate?_editCell _ child (fun cell => cell.coordinate_relinked _ _) id).trans
    (coordinate?_editCell tree parent (fun cell => cell.coordinate_relinked _ _) id)

theorem coordinate?_link (tree : RegionTree) (parent child : CellId) (index : Nat)
    (id : CoordinateId) : (tree.link parent child index).coordinate? id = tree.coordinate? id :=
  (coordinate?_editCell _ child (fun cell => cell.coordinate_relinked _ _) id).trans
    (coordinate?_editCell tree parent (fun cell => cell.coordinate_relinked _ _) id)

theorem TaresFollow.tareAs {id : CoordinateId} {tare : Option Float} (hforest : tree.Forest)
    (hfollows : tree.TaresFollow) (hloose : tree.parent id.cell = none) :
    (tree.tareAs id tare).TaresFollow := by
  refine (FollowsBut.tareAs hforest hfollows id tare fun parent hparent => ?_).mono
    fun _ => And.left
  exact absurd (hloose.symm.trans hparent) nofun

theorem TaresFollow.foldl_tareAs {ids : List CoordinateId} {tare : Option Float}
    (hforest : tree.Forest) (hfollows : tree.TaresFollow)
    (hloose : ∀ id ∈ ids, tree.parent id.cell = none) :
    (ids.foldl (fun tree id => tree.tareAs id tare) tree).TaresFollow := by
  induction ids generalizing tree with
  | nil => exact hfollows
  | cons id rest ih =>
      obtain ⟨hfirst, hrest⟩ := List.forall_mem_cons.mp hloose
      have hsame := SameLinks.of_revalues (retares_tareAs tree id tare).toRevalues
      exact ih (hforest.sameLinks hsame) (hfollows.tareAs hforest hfirst) fun other hother =>
        (hsame.parent _).trans (hrest other hother)

theorem TaresFollow.detach (hforest : tree.Forest) (hfollows : tree.TaresFollow)
    (hparent : tree.IsParent parent child) : (tree.detach parent child).TaresFollow := by
  have hedge := isParent_unlink tree parent child
  have hunlinked : (tree.unlink parent child).TaresFollow := by
    intro id above habove hahead hlate
    rw [tare_congr (coordinate?_unlink tree parent child id),
      absolute_congr (coordinate?_unlink tree parent child _)]
    exact hfollows id above ((hedge above id.cell).mp habove).1 hahead hlate
  rw [detach_eq]
  refine hunlinked.foldl_tareAs (hforest.unlink hparent) fun id hid => ?_
  rw [CellId.mem_coordinates.mp hid]
  exact Option.eq_none_iff_forall_ne_some.mpr fun above habove =>
    ((hedge above child).mp habove).2 rfl

/-- Both tares of a child on an axis are taken from its parent, whose near edge they leave as it
is. -/
theorem FollowsBut.tareFromParent (hforest : tree.Forest) (hfollows : tree.FollowsBut [] late)
    (hparent : tree.IsParent parent child) (axis : Axis) :
    (tree.tareFromParent parent child axis).FollowsBut [] fun id =>
      late id ∧ ¬ (id.cell = child ∧ id.axis = axis) := by
  have honly : ∀ above, tree.IsParent above child → above = parent := fun above habove =>
    Option.some.inj (habove.symm.trans hparent)
  have hnear := hfollows.tareAs hforest (child.coordinate axis .alpha)
    (tree.absolute (parent.coordinate axis .alpha)) fun above habove => honly above habove ▸ rfl
  have hsame := SameLinks.of_revalues (retares_tareAs tree (child.coordinate axis .alpha)
    (tree.absolute (parent.coordinate axis .alpha))).toRevalues
  have hkept : (tree.tareAs (child.coordinate axis .alpha) (tree.absolute
      (parent.coordinate axis .alpha))).absolute (parent.coordinate axis .alpha) =
        tree.absolute (parent.coordinate axis .alpha) := by
    refine absolute_congr (coordinate?_tareAs hforest (fun heq => ?_) fun hbelow => ?_)
    · have hcell : parent = child := congrArg (·.cell) heq
      exact hforest.acyclic.irreflexive child (hcell ▸ hparent)
    · exact hforest.acyclic child (hbelow.tail hparent)
  have hfar := hnear.tareAs (hforest.sameLinks hsame) (child.coordinate axis .beta)
    (tree.absolute (parent.coordinate axis .alpha)) fun above habove => by
        rw [honly above ((Forest.isParent_of_sameLinks hsame).mp habove)]
        exact hkept
  refine hfar.mono fun id => ?_
  rintro ⟨⟨hlate, halpha⟩, hbeta⟩
  refine ⟨hlate, ?_⟩
  rintro ⟨rfl, rfl⟩
  obtain ⟨cell, axis, edge⟩ := id
  cases edge with
  | alpha => exact halpha rfl
  | beta => exact hbeta rfl

theorem TaresFollow.attach (hforest : tree.Forest) (hfollows : tree.TaresFollow)
    (hfits : tree.Fits parent child index) (hfree : tree.parent child = none) :
    (tree.attach parent child index).TaresFollow := by
  have hedge := isParent_link tree parent child index hfits.known_child hfree
  have hlinked : (tree.link parent child index).FollowsBut [] fun id => id.cell = child := by
    intro id above habove hahead hpunctual
    rw [tare_congr (coordinate?_link tree parent child index id),
      absolute_congr (coordinate?_link tree parent child index _)]
    have hold := ((hedge above id.cell).mp habove).resolve_right fun hnew => hpunctual hnew.2
    exact hfollows id above hold hahead not_false
  have hforest := hforest.link hfits hfree
  have hparent : (tree.link parent child index).IsParent parent child :=
    (hedge parent child).mpr (.inr ⟨rfl, rfl⟩)
  have hsame := SameLinks.of_revalues
    (retares_tareFromParent (tree.link parent child index) parent child .x).toRevalues
  rw [attach_eq]
  refine ((hlinked.tareFromParent hforest hparent .x).tareFromParent (hforest.sameLinks hsame)
    ((Forest.isParent_of_sameLinks hsame).mpr hparent) .y).mono fun id => ?_
  rintro ⟨⟨hcell, hx⟩, hy⟩
  cases haxis : id.axis with
  | x => exact hx ⟨hcell, haxis⟩
  | y => exact hy ⟨hcell, haxis⟩

theorem TaresFollow.insert (hforest : tree.Forest) (hfollows : tree.TaresFollow)
    (hinsert : tree.insert parent child index = .ok after) : after.TaresFollow := by
  obtain ⟨hplaceable, rfl⟩ := insert_eq_ok hinsert
  obtain ⟨hfreed, hfits, hfree⟩ := hforest.freed (fits_of_placeable hforest hplaceable)
  have hfollows' : (tree.freed child).TaresFollow := by
    unfold freed
    split
    next old hold => exact hfollows.detach hforest hold
    next => exact hfollows
  exact (hfollows'.attach hfreed hfits hfree).still
    (.of_cells (cells_place tree parent child index))

theorem TaresFollow.remove (hforest : tree.Forest) (hfollows : tree.TaresFollow)
    (hremove : tree.remove parent child = .ok after) : after.TaresFollow := by
  obtain ⟨hchild, hcells⟩ := cells_remove hremove
  have hparent := (hforest.mem_children_iff parent child).mp hchild
  exact (hfollows.detach hforest hparent).still (.of_cells hcells)

/-! New cells. -/

/-- A tree in which only a cell without links differs. -/
theorem TaresFollow.of_others (hfollows : tree.TaresFollow) (hforest : tree.Forest)
    {fresh : CellId} (hparent : ∀ id, after.parent id = tree.parent id)
    (hunknown : tree.contains fresh = false)
    (hothers : ∀ id : CoordinateId, id.cell ≠ fresh → after.coordinate? id = tree.coordinate? id) :
    after.TaresFollow := by
  intro id above habove hahead hlate
  have hold : tree.IsParent above id.cell := (hparent id.cell).symm.trans habove
  have hbelow : id.cell ≠ fresh := by
    intro heq
    rw [← heq, contains_of_isParent hold] at hunknown
    contradiction
  have hnear : above ≠ fresh := by
    intro heq
    rw [← heq, hforest.contains_parent hold] at hunknown
    contradiction
  rw [tare_congr (hothers id hbelow), absolute_congr (hothers _ hnear)]
  exact hfollows id above hold hahead hlate

theorem coordinate?_addCell (tree : RegionTree) (recipes : Recipes) (pinned : Bool)
    {id : CoordinateId} (hne : id.cell ≠ tree.nextCell) :
    (tree.addCell recipes pinned).coordinate? id = tree.coordinate? id := by
  rw [coordinate?, cell?_addCell, if_neg hne, coordinate?]

theorem coordinate?_createRoot (tree : RegionTree) (recipes : Recipes) {id : CoordinateId}
    (hne : id.cell ≠ tree.nextCell) :
    (tree.createRoot recipes).2.coordinate? id = tree.coordinate? id := by
  rw [← coordinate?_addCell tree recipes true hne]
  unfold createRoot
  dsimp only
  generalize tree.addCell recipes true = added
  refine foldl_related (r := fun first second : RegionTree =>
    second.coordinate? id = first.coordinate? id) (fun _ => rfl)
    (fun hfirst hsecond => hsecond.trans hfirst) (fun state own hown => ?_) added
  refine (stores_storeTare state own (some 0.0)).1.others id fun heq => hne ?_
  rw [heq, CellId.mem_coordinates.mp hown]

/-! Any operations. -/

/-- Whether an operation sets no tare by hand, but for a cell that hangs from nothing. -/
def setsLoosely (tree : RegionTree) : TreeOperation → Bool
  | .setTare coordinate _ => (tree.parent coordinate.cell).isNone
  | _ => true

def runsLoosely : RegionTree → List TreeOperation → Bool
  | _, [] => true
  | tree, operation :: rest =>
    tree.setsLoosely operation && runsLoosely (tree.perform operation) rest

theorem TaresFollow.perform (hforest : tree.Forest) (hfollows : tree.TaresFollow)
    {operation : TreeOperation} (hloose : tree.setsLoosely operation = true) :
    (tree.perform operation).TaresFollow := by
  cases operation with
  | createCell recipes =>
      exact hfollows.of_others hforest (parent_addCell tree recipes false)
        tree.not_contains_nextCell fun _ hne => coordinate?_addCell tree recipes false hne
  | createRoot recipes =>
      refine hfollows.of_others hforest (fun id => ?_) tree.not_contains_nextCell fun _ hne =>
        coordinate?_createRoot tree recipes hne
      exact ((sameLinks_createRoot tree recipes).parent id).trans
        (parent_addCell tree recipes true id)
  | append parent child => exact attempt_of hfollows fun _ => hfollows.insert hforest
  | insert parent child index => exact attempt_of hfollows fun _ => hfollows.insert hforest
  | remove parent child => exact attempt_of hfollows fun _ => hfollows.remove hforest
  | setRecipe coordinate recipe =>
      exact attempt_of hfollows fun _ hset => hfollows.still (still_setRecipe hset)
  | setTare coordinate tare =>
      refine attempt_of hfollows fun after hset => ?_
      rw [setTare_eq_ok hset]
      exact hfollows.tareAs hforest (Option.isNone_iff_eq_none.mp hloose)
  | calculate coordinate =>
      have hnoted := still_noteEvaluated tree (tree.namesMet coordinate)
      rw [RegionTree.perform, calculate]
      split
      · exact FollowsBut.storeResult (hforest.sameLinks hnoted.toSameLinks)
          (hfollows.still hnoted) _
      · exact hfollows.still hnoted
  | rename cell name =>
      refine attempt_of hfollows fun after hrename => ?_
      rw [rename_eq_ok hrename]
      exact hfollows.still (still_setName tree cell name)
  | replaceLengths network names => exact hfollows.still (.of_cells rfl)

theorem TaresFollow.foldl_perform (hforest : tree.Forest) (hfollows : tree.TaresFollow)
    {operations : List TreeOperation} (hloose : tree.runsLoosely operations = true) :
    (operations.foldl RegionTree.perform tree).TaresFollow := by
  induction operations generalizing tree with
  | nil => exact hfollows
  | cons operation rest ih =>
      rw [runsLoosely, Bool.and_eq_true] at hloose
      exact ih (hforest.perform operation) (hfollows.perform hforest hloose.1) hloose.2

/-- Whatever is done to a tree of cells, as long as tares are set by hand only where nothing is
above: the tare of a cell is the absolute value of its parent's near edge. -/
theorem tare_eq_absolute_parent {operations : List TreeOperation}
    (hloose : empty.runsLoosely operations = true) {parent child : CellId}
    (hparent : (built operations).parent child = some parent) (axis : Axis) (edge : Edge) :
    (built operations).tare (child.coordinate axis edge) =
      (built operations).absolute (parent.coordinate axis .alpha) := by
  have hempty : RegionTree.empty.TaresFollow := fun _ _ hfalse => absurd hfalse nofun
  exact hempty.foldl_perform Forest.empty hloose (child.coordinate axis edge) parent hparent
    List.not_mem_nil not_false

/-- A cell below another is taken over by a root after all near edges were calculated. -/
def takenOver : List TreeOperation :=
  [.replaceLengths ⟨#[⟨.constant 5.0, [], []⟩, ⟨.constant 8.0, [], []⟩], #[]⟩ [],
    .createRoot ⟨⟨0⟩, ⟨1⟩, ⟨0⟩, ⟨1⟩⟩, .createCell ⟨⟨0⟩, ⟨1⟩, ⟨0⟩, ⟨1⟩⟩,
    .createCell ⟨⟨0⟩, ⟨1⟩, ⟨0⟩, ⟨1⟩⟩, .setTare ⟨⟨1⟩, .x, .alpha⟩ (some 3.0), .append ⟨1⟩ ⟨2⟩,
    .calculate ⟨⟨0⟩, .x, .alpha⟩, .calculate ⟨⟨1⟩, .x, .alpha⟩, .append ⟨0⟩ ⟨1⟩]

theorem takenOver_tare :
    empty.runsLoosely takenOver = true ∧ (built takenOver).parent ⟨2⟩ = some ⟨1⟩ ∧
      (built takenOver).tare ((CellId.mk 2).coordinate .x .beta) =
        (built takenOver).absolute ((CellId.mk 1).coordinate .x .alpha) ∧
      (built takenOver).absolute ((CellId.mk 1).coordinate .x .alpha) = some 10.0 := by
  have hrun : empty.runsLoosely takenOver = true ∧ (built takenOver).parent ⟨2⟩ = some ⟨1⟩ ∧
      (built takenOver).absolute ((CellId.mk 1).coordinate .x .alpha) = some 10.0 := by
    decide +kernel
  obtain ⟨hloose, hparent, habsolute⟩ := hrun
  exact ⟨hloose, hparent, tare_eq_absolute_parent hloose hparent .x .beta, habsolute⟩

end RegionTree

end RegionLayout
