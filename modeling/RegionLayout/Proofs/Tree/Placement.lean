import Mathlib.Data.List.InsertIdx
import RegionLayout.Proofs.Tree.Recipes

/-!
Cells that move. A cell keeps no child twice, and none that does not exist; binding anew after a
move tells whatever the move changed.
-/

namespace RegionLayout

theorem nodup_insertIdx {α : Type} {items : List α} {item : α} (hnodup : items.Nodup)
    (hnew : item ∉ items) (index : Nat) : (items.insertIdx index item).Nodup := by
  by_cases hindex : index ≤ items.length
  · rw [(List.perm_insertIdx item items hindex).nodup_iff]
    exact List.nodup_cons.mpr ⟨hnew, hnodup⟩
  · rwa [List.insertIdx_of_length_lt (Nat.lt_of_not_le hindex)]

namespace RegionTree

variable {tree after : RegionTree}

/-! Changes of one cell that its coordinates do not notice. -/

theorem edits_of_steady {before : RegionTree} (hsteady : Steady before after)
    (hrelative : ∀ id, after.relative id = before.relative id)
    (hnodup : before.Sound → ∀ id, (after.children id).Nodup)
    (hlt : before.Sound → ∀ id, ∀ child ∈ after.children id, child.index < before.size) :
    Edits before after :=
  fun hsound => ⟨⟨hsteady.notifies hsound, hrelative⟩,
    hsteady.sound hsound (hnodup hsound) (hlt hsound)⟩

theorem children_editCell (tree : RegionTree) (id other : CellId) (change : Cell → Cell) :
    (tree.editCell id change).children other =
      if other = id then ((tree.cell? other).map fun cell => (change cell).children).getD []
      else tree.children other := by
  rw [children, cell?_editCell, children]
  split
  · rw [Option.map_map]
    rfl
  · rfl

section Unnoticed

variable (id : CellId) {change : Cell → Cell}
  (hrecipe : ∀ cell axis edge,
    ((change cell).coordinate axis edge).recipe = (cell.coordinate axis edge).recipe)
  (hwiring : ∀ cell axis edge,
    ((change cell).coordinate axis edge).wiring = (cell.coordinate axis edge).wiring)
  (hrelative : ∀ cell axis edge,
    ((change cell).coordinate axis edge).relative = (cell.coordinate axis edge).relative)

include hrecipe hwiring in
theorem steady_editCell (tree : RegionTree) : Steady tree (tree.editCell id change) where
  lengths := rfl
  hushed := .refl tree.network
  names := rfl
  size := by simp [size, editCell]
  wired other := by
    rw [coordinate?, cell?_editCell, coordinate?]
    split
    · cases tree.cell? other.cell with
      | none => rfl
      | some cell => simp [hrecipe, hwiring]
    · rfl

include hrelative in
theorem relative_editCell (tree : RegionTree) (other : CoordinateId) :
    (tree.editCell id change).relative other = tree.relative other := by
  rw [relative, coordinate?, cell?_editCell, relative, coordinate?]
  split
  · cases tree.cell? other.cell with
    | none => rfl
    | some cell => simp [hrelative]
  · rfl

include hrecipe hwiring hrelative in
theorem edits_editCell (tree : RegionTree)
    (hchildren : ∀ cell, (change cell).children = cell.children) :
    Edits tree (tree.editCell id change) := by
  refine (steady_editCell id hrecipe hwiring tree).edits (relative_editCell id hrelative tree)
    fun other => ?_
  rw [children_editCell]
  split
  · simp only [hchildren]
    rfl
  · rfl

end Unnoticed

theorem edits_setParent (tree : RegionTree) (id : CellId) (parent : Option CellId) :
    Edits tree (tree.editCell id fun cell => { cell with parent }) := by
  refine edits_editCell id (fun _ axis _ => ?_) (fun _ axis _ => ?_) (fun _ axis _ => ?_) tree
    fun _ => rfl <;> cases axis <;> rfl

theorem edits_setEntity (tree : RegionTree) (id : CellId) (entity : EntityId) :
    Edits tree (tree.setEntity id entity) := by
  refine edits_editCell id (fun _ axis _ => ?_) (fun _ axis _ => ?_) (fun _ axis _ => ?_) tree
    fun _ => rfl <;> cases axis <;> rfl

theorem edits_setName (tree : RegionTree) (id : CellId) (name : Option String) :
    Edits tree (tree.setName id name) := by
  refine edits_editCell id (fun _ axis edge => ?_) (fun _ axis edge => ?_) (fun _ axis edge => ?_)
    tree fun _ => rfl <;> cases axis <;> cases edge <;> rfl

theorem rename_eq_ok {id : CellId} {name : Option String}
    (hrename : tree.rename id name = .ok after) : after = tree.setName id name := by
  unfold rename at hrename
  split at hrename
  next => exact (Except.ok.inj hrename).symm
  next => contradiction

theorem edits_rename {id : CellId} {name : Option String}
    (hrename : tree.rename id name = .ok after) : Edits tree after := by
  rw [rename_eq_ok hrename]
  exact edits_setName tree id name

/-! Children. -/

theorem edits_setChildren (tree : RegionTree) (id : CellId) {arrange : List CellId → List CellId}
    (hnodup : tree.Sound → (arrange (tree.children id)).Nodup)
    (hlt : tree.Sound → ∀ child ∈ arrange (tree.children id), child.index < tree.size) :
    Edits tree (tree.editCell id fun cell => { cell with children := arrange cell.children }) := by
  have hchildren : ∀ other, (tree.editCell id fun cell =>
      { cell with children := arrange cell.children }).children other = [] ∨
        other = id ∧ (tree.editCell id fun cell =>
          { cell with children := arrange cell.children }).children other =
            arrange (tree.children id) ∨
        (tree.editCell id fun cell =>
          { cell with children := arrange cell.children }).children other =
            tree.children other := by
    intro other
    rw [children_editCell]
    split
    next heq =>
      subst heq
      cases hcell : tree.cell? other with
      | none => exact .inl rfl
      | some cell => exact .inr (.inl ⟨rfl, by simp [children, hcell]⟩)
    next => exact .inr (.inr rfl)
  refine edits_of_steady (steady_editCell id (fun _ axis _ => ?_) (fun _ axis _ => ?_) tree)
    (relative_editCell id (fun _ axis _ => ?_) tree) (fun hsound other => ?_)
    (fun hsound other => ?_)
  · cases axis <;> rfl
  · cases axis <;> rfl
  · cases axis <;> rfl
  · rcases hchildren other with hnone | ⟨_, harranged⟩ | hsame
    · rw [hnone]
      exact List.nodup_nil
    · rw [harranged]
      exact hnodup hsound
    · rw [hsame]
      exact hsound.children_nodup other
  · rcases hchildren other with hnone | ⟨_, harranged⟩ | hsame
    · rw [hnone]
      exact fun child hchild => absurd hchild List.not_mem_nil
    · rw [harranged]
      exact hlt hsound
    · rw [hsame]
      exact hsound.children_lt other

theorem children_setParent (tree : RegionTree) (id : CellId) (parent : Option CellId)
    (other : CellId) :
    (tree.editCell id fun cell => { cell with parent }).children other = tree.children other := by
  rw [children_editCell]
  split
  · rfl
  · rfl

theorem size_editCell (tree : RegionTree) (id : CellId) (change : Cell → Cell) :
    (tree.editCell id change).size = tree.size := by
  simp [size, editCell]

/-! Detaching. -/

section Detach

variable (tree) (parent child : CellId)

theorem retares_foldl_tareAs (tree : RegionTree) (ids : List CoordinateId) (tare : Option Float) :
    Retares tree (ids.foldl (fun tree id => tree.tareAs id tare) tree) :=
  foldl_related .refl .trans (fun state id _ => retares_tareAs state id tare) tree

theorem edits_detach : Edits tree (tree.detach parent child) := by
  have hchildren : Edits tree (tree.editCell parent fun cell =>
      { cell with children := cell.children.filter (· != child) }) :=
    edits_setChildren tree parent (fun hsound => (hsound.children_nodup parent).filter _)
      fun hsound other hother => hsound.children_lt parent other (List.mem_of_mem_filter hother)
  exact (hchildren.trans (edits_setParent _ child none)).trans
    (retares_foldl_tareAs _ child.coordinates none).edits

theorem mem_children_detach {id other : CellId}
    (hmem : other ∈ (tree.detach parent child).children id) :
    other ∈ tree.children id := by
  unfold detach at hmem
  rw [(retares_foldl_tareAs _ child.coordinates none).children, children_setParent,
    children_editCell] at hmem
  split at hmem
  next heq =>
    rw [children]
    cases hcell : tree.cell? id with
    | none =>
        rw [hcell] at hmem
        contradiction
    | some cell =>
        rw [hcell] at hmem
        exact List.mem_of_mem_filter hmem
  next => exact hmem

theorem size_detach : (tree.detach parent child).size = tree.size := by
  unfold detach
  rw [(retares_foldl_tareAs _ child.coordinates none).size, size_editCell, size_editCell]

end Detach

/-! Attaching. -/

theorem retares_tareFromParent (tree : RegionTree) (parent child : CellId) (axis : Axis) :
    Retares tree (tree.tareFromParent parent child axis) :=
  (retares_tareAs tree (child.coordinate axis .alpha) _).trans
    (retares_tareAs _ (child.coordinate axis .beta) _)

theorem edits_attach {parent child : CellId} (hnew : child ∉ tree.children parent)
    (hlt : child.index < tree.size) (index : Nat) :
    Edits tree (tree.attach parent child index) := by
  have hchildren : Edits tree (tree.editCell parent fun cell =>
      { cell with children := cell.children.insertIdx index child }) := by
    refine edits_setChildren tree parent
      (fun hsound => nodup_insertIdx (hsound.children_nodup parent) hnew index)
      fun hsound other hother => ?_
    rcases List.eq_or_mem_of_mem_insertIdx hother with rfl | hother
    · exact hlt
    · exact hsound.children_lt parent other hother
  exact (hchildren.trans (edits_setParent _ child (some parent))).trans
    ((retares_tareFromParent _ parent child .x).trans
      (retares_tareFromParent _ parent child .y)).edits

/-- A cell hangs from its new parent and that has been told, but nothing is bound anew yet. -/
def relocated (tree : RegionTree) (parent child : CellId) (index : Nat) : RegionTree :=
  let freed := match tree.parent child with
    | some old => tree.detach old child
    | none => tree
  let moved := (freed.attach parent child index).send
    (.parent child (tree.parent child) (some parent))
  let told := (tree.parent child).toList.foldl (fun tree old => tree.send (.children old)) moved
  told.send (.children parent)

theorem place_eq (tree : RegionTree) (parent child : CellId) (index : Nat) :
    tree.place parent child index = (tree.relocated parent child index).rebind
      ((tree.relocated parent child index).subtree child ++ (tree.parent child).toList ++
        [parent]) := rfl

theorem edits_relocated {parent child : CellId} (hnew : child ∉ tree.children parent)
    (hlt : child.index < tree.size) (index : Nat) :
    Edits tree (tree.relocated parent child index) := by
  have hsends : ∀ (olds : List CellId) (state : RegionTree), Edits state
      (olds.foldl (fun tree old => tree.send (.children old)) state) := fun olds state =>
    foldl_related (r := Edits) .refl .trans (fun state _ _ => edits_send state rfl) state
  unfold relocated
  cases hparent : tree.parent child with
  | none =>
      exact (((edits_attach hnew hlt index).trans (edits_send _ rfl)).trans
        (hsends [] _)).trans (edits_send _ rfl)
  | some old =>
      have hnew' : child ∉ (tree.detach old child).children parent :=
        fun hmem => hnew (mem_children_detach tree old child hmem)
      have hlt' : child.index < (tree.detach old child).size := by rwa [size_detach]
      exact ((((edits_detach tree old child).trans (edits_attach hnew' hlt' index)).trans
        (edits_send _ rfl)).trans (hsends [old] _)).trans (edits_send _ rfl)

theorem edits_place {parent child : CellId} (hnew : child ∉ tree.children parent)
    (hlt : child.index < tree.size) (index : Nat) : Edits tree (tree.place parent child index) := by
  rw [place_eq]
  exact (edits_relocated hnew hlt index).trans (edits_rebind _ _)

/-- Every reason not to attach a cell is ruled out. -/
theorem exists_of_placeable {parent child : CellId} {index : Nat}
    (hplaceable : tree.placeable parent child index = .ok ()) :
    ∃ above below, tree.cell? parent = some above ∧ tree.cell? child = some below ∧
      below.pinned = false ∧ child ∉ above.children ∧
      ¬ (parent = child ∨ child ∈ tree.ancestors parent) ∧ index ≤ above.children.length := by
  unfold placeable at hplaceable
  split at hplaceable
  next => contradiction
  next => contradiction
  next above below habove hbelow =>
    split at hplaceable
    next => contradiction
    next hpinned =>
      split at hplaceable
      next => contradiction
      next hnew =>
        split at hplaceable
        next => contradiction
        next houtside =>
          split at hplaceable
          next => contradiction
          next hindex =>
            rw [List.contains_iff_mem] at hnew
            exact ⟨above, below, habove, hbelow, Bool.eq_false_iff.mpr hpinned, hnew, houtside,
              Nat.le_of_not_lt hindex⟩

theorem placeable_spec {parent child : CellId} {index : Nat}
    (hplaceable : tree.placeable parent child index = .ok ()) :
    child ∉ tree.children parent ∧ child.index < tree.size := by
  obtain ⟨above, below, habove, hbelow, _, hnew, _⟩ := exists_of_placeable hplaceable
  refine ⟨?_, (Array.getElem?_eq_some_iff.mp hbelow).1⟩
  rwa [children_of_cell? habove]

theorem insert_eq_ok {parent child : CellId} {index : Nat}
    (hinsert : tree.insert parent child index = .ok after) :
    tree.placeable parent child index = .ok () ∧ after = tree.place parent child index := by
  unfold insert at hinsert
  split at hinsert
  next hplaceable => exact ⟨hplaceable, (Except.ok.inj hinsert).symm⟩
  next => contradiction

theorem edits_insert {parent child : CellId} {index : Nat}
    (hinsert : tree.insert parent child index = .ok after) : Edits tree after := by
  obtain ⟨hplaceable, rfl⟩ := insert_eq_ok hinsert
  obtain ⟨hnew, hlt⟩ := placeable_spec hplaceable
  exact edits_place hnew hlt index

/-- A cell hangs from nothing and that has been told, but nothing is bound anew yet. -/
def loosened (tree : RegionTree) (parent child : CellId) : RegionTree :=
  ((tree.detach parent child).send (.parent child (some parent) none)).send (.children parent)

theorem edits_loosened (tree : RegionTree) (parent child : CellId) :
    Edits tree (tree.loosened parent child) :=
  ((edits_detach tree parent child).trans (edits_send _ rfl)).trans (edits_send _ rfl)

theorem remove_eq_ok {parent child : CellId} (hremove : tree.remove parent child = .ok after) :
    after = (tree.loosened parent child).rebind
      ((tree.loosened parent child).subtree child ++ [parent]) := by
  unfold remove at hremove
  split at hremove
  next => exact (Except.ok.inj hremove).symm
  next => contradiction

theorem edits_remove {parent child : CellId} (hremove : tree.remove parent child = .ok after) :
    Edits tree after := by
  rw [remove_eq_ok hremove]
  exact (edits_loosened tree parent child).trans (edits_rebind _ _)

theorem setTare_eq_ok {id : CoordinateId} {tare : Option Float}
    (hset : tree.setTare id tare = .ok after) : after = tree.tareAs id tare := by
  unfold setTare at hset
  split at hset
  next => exact (Except.ok.inj hset).symm
  next => contradiction

theorem edits_setTare {id : CoordinateId} {tare : Option Float}
    (hset : tree.setTare id tare = .ok after) : Edits tree after := by
  rw [setTare_eq_ok hset]
  exact (retares_tareAs tree id tare).edits

theorem keeps_calculate (tree : RegionTree) (id : CoordinateId) :
    Keeps tree (tree.calculate id).2 := by
  obtain ⟨_, hrevalues, _⟩ := calculate_spec tree id
  exact hrevalues.keeps

/-! Whole moves, up to what is bound anew. -/

/-- A relation that the two ends of a link, rewritten, and what is told of it keep as well. -/
structure Relinking (r : RegionTree → RegionTree → Prop) : Prop extends Storing r where
  setParent : ∀ tree id parent, r tree (tree.editCell id fun cell => { cell with parent })
  setChildren : ∀ tree id (arrange : List CellId → List CellId),
    r tree (tree.editCell id fun cell => { cell with children := arrange cell.children })
  tellParent : ∀ tree id old new, r tree (tree.send (.parent id old new))
  tellChildren : ∀ tree id, r tree (tree.send (.children id))

namespace Relinking

variable {r : RegionTree → RegionTree → Prop} (hrelinking : Relinking r) (tree : RegionTree)
  (parent child : CellId)

include hrelinking

theorem detach : r tree (tree.detach parent child) :=
  hrelinking.trans (hrelinking.trans (hrelinking.setChildren tree parent (·.filter (· != child)))
    (hrelinking.setParent _ child none))
    (foldl_related hrelinking.refl hrelinking.trans
      (fun state id _ => hrelinking.tareAs state id none) _)

theorem attach (index : Nat) : r tree (tree.attach parent child index) := by
  have htares : ∀ (state : RegionTree) axis, r state (state.tareFromParent parent child axis) :=
    fun state axis => hrelinking.trans (hrelinking.tareAs state (child.coordinate axis .alpha) _)
      (hrelinking.tareAs _ (child.coordinate axis .beta) _)
  have hlinked := hrelinking.trans
    (hrelinking.setChildren tree parent (·.insertIdx index child))
    (hrelinking.setParent _ child (some parent))
  exact hrelinking.trans hlinked (hrelinking.trans (htares _ .x) (htares _ .y))

theorem relocated (index : Nat) : r tree (tree.relocated parent child index) := by
  have htold : ∀ (olds : List CellId) (state : RegionTree),
      r state (olds.foldl (fun tree old => tree.send (.children old)) state) := fun olds state =>
    foldl_related hrelinking.refl hrelinking.trans
      (fun state old _ => hrelinking.tellChildren state old) state
  have hjoined : ∀ state : RegionTree, r state
      (((tree.parent child).toList.foldl (fun tree old => tree.send (.children old))
        ((state.attach parent child index).send
          (.parent child (tree.parent child) (some parent)))).send (.children parent)) :=
    fun state => hrelinking.trans (hrelinking.trans (hrelinking.trans
      (hrelinking.attach state parent child index) (hrelinking.tellParent _ child _ _))
      (htold _ _)) (hrelinking.tellChildren _ parent)
  unfold RegionTree.relocated
  dsimp only
  split
  · exact hrelinking.trans (hrelinking.detach tree _ child) (hjoined _)
  · exact hjoined tree

theorem loosened : r tree (tree.loosened parent child) :=
  hrelinking.trans (hrelinking.trans (hrelinking.detach tree parent child)
    (hrelinking.tellParent _ child _ _)) (hrelinking.tellChildren _ parent)

end Relinking

end RegionTree

end RegionLayout
