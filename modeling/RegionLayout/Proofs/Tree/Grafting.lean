import RegionLayout.Proofs.Tree.Preorder

/-!
Grafting. A cell is attached only where nothing of what hangs below it already is, and leaves its
old parent first; so whatever is done to a tree of cells, it stays a forest, and a subtree is the
preorder of what is below a cell.
-/

namespace RegionLayout

open Relation

namespace RegionTree

variable {tree after : RegionTree} {id other parent child : CellId} {index : Nat}

theorem parent_of_not_contains (hunknown : ¬ tree.contains id = true) : tree.parent id = none := by
  rw [contains, Option.not_isSome_iff_eq_none] at hunknown
  rw [RegionTree.parent, hunknown, Option.bind_none]

/-! Detaching. -/

/-- A detached cell as it is before its tares go. -/
def unlink (tree : RegionTree) (parent child : CellId) : RegionTree :=
  (tree.editCell parent fun cell =>
    { cell with children := cell.children.filter (· != child) }).editCell child fun cell =>
      { cell with parent := none }

section Unlink

variable (tree parent child)

theorem detach_eq : tree.detach parent child =
    child.coordinates.foldl (fun tree coordinate => tree.tareAs coordinate none)
      (tree.unlink parent child) := rfl

theorem sameLinks_detach : SameLinks (tree.unlink parent child) (tree.detach parent child) :=
  .of_revalues (retares_foldl_tareAs _ child.coordinates none).toRevalues

theorem contains_unlink (id : CellId) :
    (tree.unlink parent child).contains id = tree.contains id := by
  rw [unlink, contains_editCell, contains_editCell]

theorem isPinned_unlink (id : CellId) :
    (tree.unlink parent child).isPinned id = tree.isPinned id := by
  rw [unlink, isPinned_setParent, isPinned_setChildren]

theorem children_unlink (id : CellId) : (tree.unlink parent child).children id =
    if id = parent then (tree.children parent).filter (· != child) else tree.children id := by
  rw [unlink, children_setParent, children_setChildren]
  by_cases heq : id = parent
  · subst heq
    cases hknown : tree.contains id with
    | true => simp
    | false => simp [children, Option.not_isSome_iff_eq_none.mp (ne_true_of_eq_false hknown)]
  · simp [heq]

theorem isParent_unlink (above below : CellId) : (tree.unlink parent child).IsParent above below ↔
    tree.IsParent above below ∧ below ≠ child := by
  rw [IsParent, unlink, parent_setParent, parent_setChildren, contains_editCell, IsParent]
  by_cases heq : below = child
  · subst heq
    by_cases hknown : tree.contains below = true
    · simp [hknown]
    · simp [hknown, parent_of_not_contains hknown]
  · simp [heq]

end Unlink

theorem Forest.unlink (hforest : tree.Forest) (hparent : tree.IsParent parent child) :
    (tree.unlink parent child).Forest where
  mem_children_iff above below := by
    rw [children_unlink, isParent_unlink]
    split
    next heq =>
      rw [List.mem_filter, hforest.mem_children_iff, heq, bne_iff_ne]
    next hne =>
      rw [hforest.mem_children_iff]
      refine ⟨fun hold => ⟨hold, fun heq => hne ?_⟩, And.left⟩
      exact Option.some.inj ((heq ▸ hold : tree.parent child = some above).symm.trans hparent)
  nodup id := by
    rw [children_unlink]
    split
    · exact (hforest.nodup parent).filter _
    · exact hforest.nodup id
  acyclic := hforest.acyclic.mono fun above below hedge =>
    ((isParent_unlink tree parent child above below).mp hedge).1
  pinned id hpinned := by
    rw [isPinned_unlink] at hpinned
    refine Option.eq_none_iff_forall_ne_some.mpr fun above habove => ?_
    have hold := ((isParent_unlink tree parent child above id).mp habove).1
    exact absurd (hold.symm.trans (hforest.pinned id hpinned)) nofun

theorem Forest.detach (hforest : tree.Forest) (hparent : tree.IsParent parent child) :
    (tree.detach parent child).Forest :=
  (hforest.unlink hparent).sameLinks (sameLinks_detach tree parent child)

/-! Attaching. -/

/-- An attached cell as it is before it gets its tares. -/
def link (tree : RegionTree) (parent child : CellId) (index : Nat) : RegionTree :=
  (tree.editCell parent fun cell =>
    { cell with children := cell.children.insertIdx index child }).editCell child fun cell =>
      { cell with parent := some parent }

section Link

variable (tree parent child index)

theorem attach_eq : tree.attach parent child index =
    ((tree.link parent child index).tareFromParent parent child .x).tareFromParent parent child
      .y := rfl

theorem sameLinks_attach : SameLinks (tree.link parent child index)
    (tree.attach parent child index) :=
  .of_revalues ((retares_tareFromParent _ parent child .x).trans
    (retares_tareFromParent _ parent child .y)).toRevalues

theorem isPinned_link (id : CellId) :
    (tree.link parent child index).isPinned id = tree.isPinned id := by
  rw [link, isPinned_setParent,
    isPinned_setChildren tree parent id fun children => children.insertIdx index child]

theorem children_link (hparent : tree.contains parent = true) (id : CellId) :
    (tree.link parent child index).children id =
      if id = parent then (tree.children parent).insertIdx index child else tree.children id := by
  rw [link, children_setParent,
    children_setChildren tree parent id fun children => children.insertIdx index child]
  simp only [hparent, and_true]

theorem isParent_link (hchild : tree.contains child = true) (hfree : tree.parent child = none)
    (above below : CellId) : (tree.link parent child index).IsParent above below ↔
      tree.IsParent above below ∨ above = parent ∧ below = child := by
  rw [IsParent, link, parent_setParent, contains_editCell, IsParent,
    parent_setChildren tree parent below fun children => children.insertIdx index child]
  by_cases heq : below = child
  · subst heq
    simp [hchild, hfree, eq_comm]
  · simp [heq]

end Link

/-- What has to hold for a cell to be attached somewhere. -/
structure Fits (tree : RegionTree) (parent child : CellId) (index : Nat) : Prop where
  known_parent : tree.contains parent = true
  known_child : tree.contains child = true
  unpinned : tree.isPinned child = false
  new : child ∉ tree.children parent
  outside : ¬ ReflTransGen tree.IsParent child parent
  index : index ≤ (tree.children parent).length

theorem Forest.link (hforest : tree.Forest) (hfits : tree.Fits parent child index)
    (hfree : tree.parent child = none) : (tree.link parent child index).Forest := by
  have hedge := isParent_link tree parent child index hfits.known_child hfree
  have hchildren := children_link tree parent child index hfits.known_parent
  refine ⟨fun above below => ?_, fun id => ?_, ?_, fun id hpinned => ?_⟩
  · rw [hchildren, hedge, ← hforest.mem_children_iff]
    split
    next heq =>
      rw [List.mem_insertIdx hfits.index, heq]
      simp [or_comm]
    next hne => simp [hne]
  · rw [hchildren]
    split
    · exact nodup_insertIdx (hforest.nodup parent) hfits.new index
    · exact hforest.nodup id
  · exact (hforest.acyclic.insert hfits.outside).mono fun above below => (hedge above below).mp
  · rw [isPinned_link] at hpinned
    refine Option.eq_none_iff_forall_ne_some.mpr fun above habove => ?_
    rcases (hedge above id).mp habove with hold | ⟨_, rfl⟩
    · exact absurd (hold.symm.trans (hforest.pinned id hpinned)) nofun
    · exact absurd (hpinned.symm.trans hfits.unpinned) nofun

theorem Forest.attach (hforest : tree.Forest) (hfits : tree.Fits parent child index)
    (hfree : tree.parent child = none) : (tree.attach parent child index).Forest :=
  (hforest.link hfits hfree).sameLinks (sameLinks_attach tree parent child index)

/-- A cell that fits somewhere still fits there once it has left its old parent. -/
theorem Fits.unlink {old : CellId} (hforest : tree.Forest) (hfits : tree.Fits parent child index)
    (hold : tree.IsParent old child) : (tree.unlink old child).Fits parent child index := by
  have hne : parent ≠ old := by
    rintro rfl
    exact hfits.new ((hforest.mem_children_iff parent child).mpr hold)
  have hchildren : (tree.unlink old child).children parent = tree.children parent := by
    rw [children_unlink, if_neg hne]
  refine ⟨?_, ?_, ?_, hchildren ▸ hfits.new, fun hbelow => ?_, hchildren ▸ hfits.index⟩
  · rw [contains_unlink, hfits.known_parent]
  · rw [contains_unlink, hfits.known_child]
  · rw [isPinned_unlink, hfits.unpinned]
  · refine hfits.outside (ReflTransGen.mono (fun above below hedge => ?_) _ _ hbelow)
    exact ((isParent_unlink tree old child above below).mp hedge).1

theorem Fits.sameLinks (hfits : tree.Fits parent child index) (hsame : SameLinks tree after) :
    after.Fits parent child index where
  known_parent := hsame.contains parent ▸ hfits.known_parent
  known_child := hsame.contains child ▸ hfits.known_child
  unpinned := hsame.isPinned child ▸ hfits.unpinned
  new := hsame.children parent ▸ hfits.new
  outside hbelow := hfits.outside (ReflTransGen.mono
    (fun _ _ => (Forest.isParent_of_sameLinks hsame).mp) _ _ hbelow)
  index := hsame.children parent ▸ hfits.index

/-- The reasons not to attach a cell leave only those places where it fits. -/
theorem fits_of_placeable (hforest : tree.Forest)
    (hplaceable : tree.placeable parent child index = .ok ()) : tree.Fits parent child index := by
  obtain ⟨above, below, habove, hbelow, hpinned, hnew, houtside, hindex⟩ :=
    exists_of_placeable hplaceable
  have hchildren := children_of_cell? habove
  refine ⟨by simp [contains, habove], by simp [contains, hbelow],
    by simp [isPinned, hbelow, hpinned], hchildren ▸ hnew, fun hpath => ?_,
    hchildren ▸ hindex⟩
  rw [hforest.mem_ancestors_iff] at houtside
  rcases reflTransGen_iff_eq_or_transGen.mp hpath with heq | habove
  · exact houtside (.inl heq)
  · exact houtside (.inr habove)

/-- Where a cell is before it is attached: it hangs from nothing. -/
def freed (tree : RegionTree) (child : CellId) : RegionTree :=
  match tree.parent child with
  | some old => tree.detach old child
  | none => tree

theorem cells_send (tree : RegionTree) (message : Message) :
    (tree.send message).cells = tree.cells := rfl

/-- Once a cell is attached, the rest of a move is announcements and the binding of lengths. -/
theorem cells_place (tree : RegionTree) (parent child : CellId) (index : Nat) :
    (tree.place parent child index).cells =
      ((tree.freed child).attach parent child index).cells := by
  have hsends : ∀ (olds : List CellId) (state : RegionTree),
      (olds.foldl (fun tree old => tree.send (.children old)) state).cells = state.cells := by
    intro olds
    induction olds with
    | nil => exact fun _ => rfl
    | cons old rest ih => exact fun state => ih (state.send (.children old))
  exact (cells_rebind _ _).trans (((cells_send _ _).trans (hsends _ _)).trans (cells_send _ _))

theorem sameLinks_place (tree : RegionTree) (parent child : CellId) (index : Nat) :
    SameLinks ((tree.freed child).attach parent child index) (tree.place parent child index) :=
  .of_cells (cells_place tree parent child index)

theorem cells_remove (hremove : tree.remove parent child = .ok after) :
    child ∈ tree.children parent ∧ after.cells = (tree.detach parent child).cells := by
  unfold RegionTree.remove at hremove
  generalize tree.detach parent child = detached at hremove ⊢
  split at hremove
  next hchild =>
    rw [← Except.ok.inj hremove, cells_rebind]
    exact ⟨List.contains_iff_mem.mp hchild, rfl⟩
  next => contradiction

theorem Forest.freed (hforest : tree.Forest) (hfits : tree.Fits parent child index) :
    (tree.freed child).Forest ∧ (tree.freed child).Fits parent child index ∧
      (tree.freed child).parent child = none := by
  cases hparent : tree.parent child with
  | none =>
      have hsame : tree.freed child = tree := by rw [RegionTree.freed, hparent]
      rw [hsame]
      exact ⟨hforest, hfits, hparent⟩
  | some old =>
      have hdetached : tree.freed child = tree.detach old child := by
        rw [RegionTree.freed, hparent]
      have hsame := sameLinks_detach tree old child
      rw [hdetached]
      refine ⟨hforest.detach hparent, (hfits.unlink hforest hparent).sameLinks hsame, ?_⟩
      refine Option.eq_none_iff_forall_ne_some.mpr fun above habove => ?_
      rw [hsame.parent] at habove
      exact ((isParent_unlink tree old child above child).mp habove).2 rfl

theorem Forest.insert (hforest : tree.Forest)
    (hinsert : tree.insert parent child index = .ok after) :
    after.Forest := by
  obtain ⟨hplaceable, rfl⟩ := insert_eq_ok hinsert
  obtain ⟨hfreed, hfits, hfree⟩ := hforest.freed (fits_of_placeable hforest hplaceable)
  exact (hfreed.attach hfits hfree).sameLinks (sameLinks_place tree parent child index)

theorem Forest.remove (hforest : tree.Forest) (hremove : tree.remove parent child = .ok after) :
    after.Forest := by
  obtain ⟨hchild, hcells⟩ := cells_remove hremove
  have hparent := (hforest.mem_children_iff parent child).mp hchild
  exact (hforest.detach hparent).sameLinks (.of_cells hcells)

/-! New cells. -/

section AddCell

variable (tree) (recipes : Recipes) (pinned : Bool)

theorem not_contains_nextCell : tree.contains tree.nextCell = false := by
  simp [contains, cell?, nextCell, size]

theorem parent_addCell (id : CellId) :
    (tree.addCell recipes pinned).parent id = tree.parent id := by
  rw [parent, cell?_addCell, parent]
  split
  next heq =>
    rw [heq, Option.not_isSome_iff_eq_none.mp (ne_true_of_eq_false tree.not_contains_nextCell)]
    rfl
  next => rfl

theorem children_addCell (id : CellId) :
    (tree.addCell recipes pinned).children id = tree.children id := by
  rw [children, cell?_addCell, children]
  split
  next heq =>
    rw [heq, Option.not_isSome_iff_eq_none.mp (ne_true_of_eq_false tree.not_contains_nextCell)]
    rfl
  next => rfl

theorem isPinned_addCell (id : CellId) : (tree.addCell recipes pinned).isPinned id =
    if id = tree.nextCell then pinned else tree.isPinned id := by
  rw [isPinned, cell?_addCell, isPinned]
  split <;> rfl

end AddCell

theorem Forest.addCell (hforest : tree.Forest) (recipes : Recipes) (pinned : Bool) :
    (tree.addCell recipes pinned).Forest where
  mem_children_iff parent child := by
    rw [children_addCell, IsParent, parent_addCell]
    exact hforest.mem_children_iff parent child
  nodup id := children_addCell tree recipes pinned id ▸ hforest.nodup id
  acyclic := hforest.acyclic.mono fun parent child hparent =>
    (parent_addCell tree recipes pinned child).symm.trans hparent
  pinned id hpinned := by
    rw [isPinned_addCell] at hpinned
    rw [parent_addCell]
    split at hpinned
    next heq => exact heq ▸ parent_of_not_contains (ne_true_of_eq_false tree.not_contains_nextCell)
    next => exact hforest.pinned id hpinned

/-! Any operations. -/

theorem Forest.empty : RegionTree.empty.Forest where
  mem_children_iff _ _ := ⟨nofun, nofun⟩
  nodup _ := List.nodup_nil
  acyclic := .of_rank (fun _ => 0) nofun
  pinned _ := nofun

theorem Forest.perform (hforest : tree.Forest) (operation : TreeOperation) :
    (tree.perform operation).Forest := by
  cases operation with
  | createCell recipes => exact hforest.addCell recipes false
  | createRoot recipes =>
      exact (hforest.addCell recipes true).sameLinks (sameLinks_createRoot tree recipes)
  | append parent child => exact attempt_of hforest fun _ => hforest.insert
  | insert parent child index => exact attempt_of hforest fun _ => hforest.insert
  | remove parent child => exact attempt_of hforest fun _ => hforest.remove
  | _ => exact hforest.sameLinks (sameLinks_perform trivial)

theorem forest_built (operations : List TreeOperation) : (built operations).Forest :=
  List.foldlRecOn operations RegionTree.perform Forest.empty fun _ hforest operation _ =>
    hforest.perform operation

theorem cells_make (tree : RegionTree) (name : String) (blueprint : Blueprint) :
    (tree.make name blueprint).cells = tree.cells := by
  unfold make
  split
  · rfl
  · split <;> rfl

theorem Forest.apply (hforest : tree.Forest) (edit : TreeEdit) : (edit.apply tree).Forest := by
  have hcells : ∀ {other : RegionTree}, other.cells = tree.cells → other.Forest :=
    fun hsame => hforest.sameLinks (.of_cells hsame)
  have happlied := edit.applied_apply tree
  generalize edit.apply tree = after at happlied ⊢
  cases happlied with
  | refused => exact hforest
  | made name blueprint => exact hcells (cells_make tree name blueprint)
  | shared => exact hcells rfl
  | forgotten => exact hcells rfl
  | setConstant id value =>
      rw [setConstant_eq_network]
      exact hcells rfl
  | createdCell => exact hforest.addCell _ false
  | createdRoot => exact (hforest.addCell _ true).sameLinks (sameLinks_createRoot tree _)
  | inserted hinsert => exact hforest.insert hinsert
  | removed hremove => exact hforest.remove hremove
  | setRecipe _ hset => exact hforest.sameLinks (sameLinks_setRecipe hset)
  | setTare hset => exact hforest.sameLinks (sameLinks_setTare hset)
  | renamed hrename => exact hforest.sameLinks (sameLinks_rename hrename)

/-! Roots. -/

theorem isPinned_insert (hinsert : tree.insert parent child index = .ok after) (id : CellId) :
    after.isPinned id = tree.isPinned id := by
  obtain ⟨_, rfl⟩ := insert_eq_ok hinsert
  have hfreed : (tree.freed child).isPinned id = tree.isPinned id := by
    unfold freed
    split
    next old _ => rw [(sameLinks_detach tree old child).isPinned, isPinned_unlink]
    next => rfl
  rw [(sameLinks_place tree parent child index).isPinned,
    (sameLinks_attach _ parent child index).isPinned, isPinned_link, hfreed]

theorem isPinned_remove (hremove : tree.remove parent child = .ok after) (id : CellId) :
    after.isPinned id = tree.isPinned id := by
  have hsame : SameLinks (tree.detach parent child) after := .of_cells (cells_remove hremove).2
  rw [hsame.isPinned, (sameLinks_detach tree parent child).isPinned, isPinned_unlink]

theorem isPinned_attempt {result : Except LayoutError RegionTree}
    (hresult : ∀ after, result = .ok after → after.isPinned id = tree.isPinned id) :
    (tree.attempt result).isPinned id = tree.isPinned id := by
  cases result with
  | error failure => rfl
  | ok after => exact hresult after rfl

theorem isPinned_of_addCell (recipes : Recipes) (pinned : Bool)
    (hpinned : tree.isPinned id = true) :
    (tree.addCell recipes pinned).isPinned id = true := by
  rw [isPinned_addCell]
  split
  next heq =>
    rw [heq, isPinned,
      Option.not_isSome_iff_eq_none.mp (ne_true_of_eq_false tree.not_contains_nextCell)] at hpinned
    contradiction
  next => exact hpinned

theorem isPinned_perform (operation : TreeOperation) (hpinned : tree.isPinned id = true) :
    (tree.perform operation).isPinned id = true := by
  cases operation with
  | createCell recipes => exact isPinned_of_addCell recipes false hpinned
  | createRoot recipes =>
      rw [perform, (sameLinks_createRoot tree recipes).isPinned]
      exact isPinned_of_addCell recipes true hpinned
  | append parent child =>
      exact (isPinned_attempt fun _ hdone => isPinned_insert hdone id).trans hpinned
  | insert parent child index =>
      exact (isPinned_attempt fun _ hdone => isPinned_insert hdone id).trans hpinned
  | remove parent child =>
      exact (isPinned_attempt fun _ hdone => isPinned_remove hdone id).trans hpinned
  | _ => exact ((sameLinks_perform trivial).isPinned id).trans hpinned

/-- Once made, a root is a root ever after. -/
theorem isPinned_built_root (earlier later : List TreeOperation) (recipes : Recipes) :
    (built (earlier ++ .createRoot recipes :: later)).isPinned
      ((built earlier).createRoot recipes).1 = true := by
  rw [built, List.foldl_append, List.foldl_cons, ← built]
  refine foldl_related (r := fun first second : RegionTree => ∀ id, first.isPinned id = true →
    second.isPinned id = true) (fun _ _ => id) (fun hfirst hsecond id => hsecond id ∘ hfirst id)
    (fun _ operation _ _ => isPinned_perform operation) _ _ ?_
  show ((built earlier).createRoot recipes).2.isPinned (built earlier).nextCell = true
  rw [(sameLinks_createRoot _ recipes).isPinned, isPinned_addCell, if_pos rfl]

/-- Whatever is done to a tree of cells, parents and children agree, all of them exist, no child is
listed twice, nothing hangs below itself, climbing and walking through a subtree end by themselves,
and a cell that was made as a root hangs from nothing. -/
theorem operations_keep_forest :
    (∀ operations,
      (built operations).Forest ∧
        (∀ id, ((built operations).parent id).all (built operations).contains = true ∧
          ((built operations).children id).all (built operations).contains = true) ∧
        (∀ id, id ∉ (built operations).ancestors id) ∧
        ∀ id extra,
          (built operations).climb ((built operations).size + extra) id =
            (built operations).ancestors id ∧
          (built operations).descend ((built operations).size + 1 + extra) [id] =
            (built operations).subtree id) ∧
    ∀ earlier recipes later,
      (built (earlier ++ .createRoot recipes :: later)).parent
        ((built earlier).createRoot recipes).1 = none := by
  refine ⟨fun operations => ?_, fun earlier recipes later => ?_⟩
  · have hforest := forest_built operations
    refine ⟨hforest, fun id => ⟨?_, ?_⟩, fun id hmem => ?_, fun id extra => ⟨?_, ?_⟩⟩
    · cases hparent : (built operations).parent id with
      | none => rfl
      | some parent => exact hforest.contains_parent hparent
    · refine List.all_eq_true.mpr fun child hchild => ?_
      exact contains_of_isParent ((hforest.mem_children_iff id child).mp hchild)
    · exact hforest.acyclic id (hforest.mem_ancestors_iff.mp hmem)
    · exact hforest.climb_size_add id extra
    · exact hforest.descend_size_add id extra
  · exact (forest_built _).pinned _ (isPinned_built_root earlier later recipes)

/-- Whatever is done to a tree of cells, a subtree is all that a walk with a stack ends with, and
all that listing a cell, then its children in order with what is below each, ends with; it holds the
cell and those that have it as an ancestor, each once. -/
theorem subtree_preorder (operations : List TreeOperation) (id : CellId) :
    (∀ visited, (built operations).Exhausts [id] visited ↔
        visited = (built operations).subtree id) ∧
      (∀ listing, (built operations).Preorder [id] listing ↔
        listing = (built operations).subtree id) ∧
      (built operations).subtree id =
        id :: ((built operations).children id).flatMap (built operations).subtree ∧
      (∀ other, other ∈ (built operations).subtree id ↔ other = id ∨
        (built operations).contains other = true ∧ id ∈ (built operations).ancestors other) ∧
      ((built operations).subtree id).Nodup := by
  have hforest := forest_built operations
  have hlisting := hforest.preorder_subtree id
  have honly : ∀ listing, (built operations).Preorder [id] listing ↔
      listing = (built operations).subtree id := fun listing =>
    ⟨fun hother => hother.unique hlisting, fun heq => heq ▸ hlisting⟩
  refine ⟨fun visited => ?_, honly, hforest.subtree_eq id, fun other => ?_, hlisting.nodup hforest⟩
  · rw [exhausts_iff, List.reverse_singleton, honly]
  · rw [hforest.mem_subtree_iff, reflTransGen_iff_eq_or_transGen, hforest.mem_ancestors_iff]
    refine or_congr_right ⟨fun habove => ⟨?_, habove⟩, And.right⟩
    obtain ⟨parent, _, hparent⟩ := TransGen.tail'_iff.mp habove
    exact contains_of_isParent hparent

/-- A child's own children come before the next child. -/
example :
    let recipes : Recipes := ⟨⟨0⟩, ⟨0⟩, ⟨0⟩, ⟨0⟩⟩
    (built [.createRoot recipes, .createCell recipes, .createCell recipes, .createCell recipes,
      .append ⟨0⟩ ⟨1⟩, .append ⟨0⟩ ⟨2⟩, .append ⟨1⟩ ⟨3⟩]).subtree ⟨0⟩ =
        [⟨0⟩, ⟨1⟩, ⟨3⟩, ⟨2⟩] := by
  decide +kernel

end RegionTree

end RegionLayout
