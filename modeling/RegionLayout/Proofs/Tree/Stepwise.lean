import RegionLayout.Proofs.Steps
import RegionLayout.Proofs.Tree.Grafting

/-!
Edits taken step by step. `Stepwise` holds the edits that move cells as a machine takes them: one
change of the tree after another, each of which may fail when those before it are made. None does:
an edit is refused before its first change, for the first of a fixed list of reasons, or it is
completed.
-/

namespace RegionLayout

open Relation RegionTree Steps

/-- What stops an edit halfway. -/
inductive Stop where
  | refused (failure : LayoutError)
  /-- A child is put past the end of a list of children. -/
  | breach

abbrev Stepwise (β : Type) := Steps Stop RegionTree β

namespace Stepwise

/-- An edit that is either completed or refused with nothing changed. -/
def whole (tree : RegionTree) : Except LayoutError RegionTree → Except Stop Unit × RegionTree
  | .ok after => (.ok (), after)
  | .error failure => (.error (.refused failure), tree)

/-! Single steps. -/

def requireCell (id : CellId) : Stepwise Cell := do
  let tree ← get
  match tree.cell? id with
  | some cell => return cell
  | none => throw (.refused (.unknownCell id))

def refuseIf (reason : Prop) [Decidable reason] (failure : LayoutError) : Stepwise Unit :=
  if reason then throw (.refused failure) else pure ()

def edit (id : CellId) (change : Cell → Cell) : Stepwise Unit := do
  let _ ← requireCell id
  modify fun tree => tree.editCell id change

def putChild (parent child : CellId) (index : Nat) : Stepwise Unit := do
  let cell ← requireCell parent
  if index ≤ cell.children.length then
    modify fun tree => tree.editCell parent fun cell =>
      { cell with children := cell.children.insertIdx index child }
  else throw .breach

def setTare (id : CoordinateId) (tare : Option Float) : Stepwise Unit := do
  let tree ← get
  match tree.setTare id tare with
  | .ok after => set after
  | .error failure => throw (.refused failure)

/-- Announces something on behalf of a cell, if there is one. -/
def announce (id : CellId) (message : Message) : Stepwise Unit :=
  modify fun tree => if tree.contains id then tree.send message else tree

/-! Edits. -/

def unlink (parent child : CellId) : Stepwise Unit := do
  edit parent fun cell => { cell with children := cell.children.filter (· != child) }
  edit child fun cell => { cell with parent := none }
  child.coordinates.forM fun id => setTare id none

def retareAxis (parent child : CellId) (axis : Axis) : Stepwise Unit := do
  let tree ← get
  let tare := tree.absolute (parent.coordinate axis .alpha)
  setTare (child.coordinate axis .alpha) tare
  setTare (child.coordinate axis .beta) tare

/-- Gives a cell the tares of the place it hangs at. -/
def retare (child : CellId) : Stepwise Unit := do
  let tree ← get
  match tree.parent child with
  | none => pure ()
  | some parent =>
    retareAxis parent child .x
    retareAxis parent child .y

def rebind (child : CellId) (others : List CellId) : Stepwise Unit :=
  modify fun tree => tree.rebind (tree.subtree child ++ others)

def attach (parent child : CellId) (index : Nat) : Stepwise Unit := do
  putChild parent child index
  edit child fun cell => { cell with parent := some parent }
  retare child

def place (parent child : CellId) (index : Nat) : Stepwise Unit := do
  let tree ← get
  let old := tree.parent child
  old.toList.forM fun old => unlink old child
  attach parent child index
  announce child (.parent child old (some parent))
  old.toList.forM fun old => announce old (.children old)
  announce parent (.children parent)
  rebind child (old.toList ++ [parent])

/-- Looks for a reason not to attach a cell. -/
def check (parent child : CellId) (index : Nat) : Stepwise Unit := do
  let above ← requireCell parent
  let below ← requireCell child
  let tree ← get
  refuseIf (below.pinned = true) (.pinnedRoot parent child)
  refuseIf (above.children.contains child = true) (.childAlreadyExists parent child)
  refuseIf (parent = child ∨ child ∈ tree.ancestors parent) (.wouldNestInsideItself parent child)
  refuseIf (above.children.length < index)
    (.indexOutOfBounds parent index above.children.length)

def insert (parent child : CellId) (index : Nat) : Stepwise Unit := do
  check parent child index
  place parent child index

def append (parent child : CellId) : Stepwise Unit := do
  let above ← requireCell parent
  insert parent child above.children.length

def remove (parent child : CellId) : Stepwise Unit := do
  let tree ← get
  refuseIf (¬ (tree.children parent).contains child = true) (.childNotFound parent child)
  unlink parent child
  announce child (.parent child (some parent) none)
  announce parent (.children parent)
  rebind child [parent]

/-! Steps that go through. -/

theorem result_forM {γ : Type} (items : List γ) (step : γ → Stepwise Unit)
    (run : RegionTree → γ → RegionTree) (holds : RegionTree → Prop)
    (hstep : ∀ tree, holds tree → ∀ item ∈ items,
      (step item).result tree = (.ok (), run tree item) ∧ holds (run tree item))
    {tree : RegionTree} (htree : holds tree) :
    (items.forM step).result tree = (.ok (), items.foldl run tree) ∧
      holds (items.foldl run tree) := by
  induction items generalizing tree with
  | nil => exact ⟨rfl, htree⟩
  | cons first rest ih =>
      obtain ⟨hfirst, hnext⟩ := hstep tree htree first List.mem_cons_self
      have hforM : ((first :: rest).forM step).result tree =
          (rest.forM step).result (run tree first) :=
        result_bind hfirst
      rw [hforM, List.foldl_cons]
      exact ih (fun tree htree item hitem =>
        hstep tree htree item (List.mem_cons_of_mem _ hitem)) hnext

section Steps

variable {tree : RegionTree} {id parent child : CellId} {index : Nat}

theorem result_requireCell {cell : Cell} (hcell : tree.cell? id = some cell) :
    (requireCell id).result tree = (.ok cell, tree) := by
  rw [requireCell, result_bind result_get, hcell]
  rfl

theorem result_requireCell_none (hcell : tree.cell? id = none) :
    (requireCell id).result tree = (.error (.refused (.unknownCell id)), tree) := by
  rw [requireCell, result_bind result_get, hcell]
  rfl

theorem result_refuseIf {reason : Prop} [Decidable reason] {failure : LayoutError}
    (hreason : ¬ reason) : (refuseIf reason failure).result tree = (.ok (), tree) := by
  rw [refuseIf, if_neg hreason]
  rfl

theorem result_refuseIf_error {reason : Prop} [Decidable reason] {failure : LayoutError}
    (hreason : reason) :
    (refuseIf reason failure).result tree = (.error (.refused failure), tree) := by
  rw [refuseIf, if_pos hreason]
  rfl

theorem result_edit (hknown : tree.contains id = true) (change : Cell → Cell) :
    (edit id change).result tree = (.ok (), tree.editCell id change) := by
  obtain ⟨cell, hcell⟩ := Option.isSome_iff_exists.mp hknown
  rw [edit, result_bind (result_requireCell hcell)]
  rfl

theorem result_putChild (hknown : tree.contains parent = true)
    (hindex : index ≤ (tree.children parent).length) :
    (putChild parent child index).result tree = (.ok (), tree.editCell parent fun cell =>
      { cell with children := cell.children.insertIdx index child }) := by
  obtain ⟨cell, hcell⟩ := Option.isSome_iff_exists.mp hknown
  have hlength : index ≤ cell.children.length := children_of_cell? hcell ▸ hindex
  rw [putChild, result_bind (result_requireCell hcell), if_pos hlength]
  rfl

theorem result_setTare {id : CoordinateId} (hknown : tree.contains id.cell = true)
    (tare : Option Float) : (setTare id tare).result tree = (.ok (), tree.tareAs id tare) := by
  have hset : tree.setTare id tare = .ok (tree.tareAs id tare) := if_pos hknown
  rw [setTare, result_bind result_get, hset]
  rfl

theorem result_announce (hknown : tree.contains id = true) (message : Message) :
    (announce id message).result tree = (.ok (), tree.send message) :=
  congrArg (Except.ok (), ·) (if_pos hknown)

theorem contains_tareAs (id : CoordinateId) (tare : Option Float) (other : CellId) :
    (tree.tareAs id tare).contains other = tree.contains other :=
  (SameLinks.of_revalues (RegionTree.retares_tareAs tree id tare).toRevalues).contains other

theorem result_rebind (others : List CellId) : (rebind child others).result tree =
    (.ok (), tree.rebind (tree.subtree child ++ others)) := rfl

theorem result_unlink (hparent : tree.contains parent = true)
    (hchild : tree.contains child = true) :
    (unlink parent child).result tree = (.ok (), tree.detach parent child) := by
  obtain ⟨htares, _⟩ := result_forM child.coordinates (fun id => setTare id none) _
    (fun tree => tree.contains child = true) (fun tree hknown id hid =>
      ⟨result_setTare (CellId.mem_coordinates.mp hid ▸ hknown) none,
        (contains_tareAs id none child).trans hknown⟩)
    ((tree.contains_unlink parent child child).trans hchild)
  rw [unlink, result_bind (result_edit hparent _),
    result_bind (result_edit ((tree.contains_editCell parent child _).trans hchild) _)]
  exact htares

theorem result_retareAxis (hchild : tree.contains child = true) (axis : Axis) :
    (retareAxis parent child axis).result tree =
      (.ok (), tree.tareFromParent parent child axis) := by
  rw [retareAxis, result_bind result_get]
  dsimp only
  rw [result_bind (result_setTare hchild _)]
  exact result_setTare ((contains_tareAs _ _ child).trans hchild) _

theorem result_retare (hchild : tree.contains child = true)
    (hparent : tree.parent child = some parent) :
    (retare child).result tree =
      (.ok (), (tree.tareFromParent parent child .x).tareFromParent parent child .y) := by
  rw [retare, result_bind result_get, hparent]
  dsimp only
  rw [result_bind (result_retareAxis hchild .x)]
  refine result_retareAxis ?_ .y
  rw [RegionTree.tareFromParent]
  exact ((contains_tareAs _ _ child).trans (contains_tareAs _ _ child)).trans hchild

end Steps

/-! Edits that go through. -/

section Edits

variable {tree : RegionTree} {parent child : CellId} {index : Nat}

theorem contains_freed (tree : RegionTree) (child id : CellId) :
    (tree.freed child).contains id = tree.contains id := by
  unfold freed
  split
  next old _ => rw [(sameLinks_detach tree old child).contains, contains_unlink]
  next => rfl

theorem contains_attach (tree : RegionTree) (parent child : CellId) (index : Nat) (id : CellId) :
    (tree.attach parent child index).contains id = tree.contains id := by
  rw [(sameLinks_attach tree parent child index).contains, link, contains_editCell,
    contains_editCell]

theorem result_free (hforest : tree.Forest) (hchild : tree.contains child = true) :
    ((tree.parent child).toList.forM fun old => unlink old child).result tree =
      (.ok (), tree.freed child) := by
  unfold freed
  cases hparent : tree.parent child with
  | none => rfl
  | some old =>
      have hstep : ([old].forM fun old => unlink old child).result tree =
          (pure () : Stepwise Unit).result (tree.detach old child) :=
        result_bind (result_unlink (hforest.contains_parent hparent) hchild)
      exact hstep

/-- A cell that fits is attached without a breach, whatever the place it leaves. -/
theorem result_attach (hfits : tree.Fits parent child index)
    (hfree : tree.parent child = none) :
    (attach parent child index).result tree = (.ok (), tree.attach parent child index) := by
  have hknown : (tree.editCell parent fun cell =>
      { cell with children := cell.children.insertIdx index child }).contains child = true :=
    (contains_editCell tree parent child _).trans hfits.known_child
  have hparent : (tree.link parent child index).parent child = some parent :=
    (isParent_link tree parent child index hfits.known_child hfree parent child).mpr
      (.inr ⟨rfl, rfl⟩)
  have hchild : (tree.link parent child index).contains child = true :=
    (contains_editCell _ child child _).trans hknown
  rw [attach, result_bind (result_putChild hfits.known_parent hfits.index),
    result_bind (result_edit hknown _), ← RegionTree.link, result_retare hchild hparent, attach_eq]

theorem result_place (hforest : tree.Forest) (hfits : tree.Fits parent child index) :
    (place parent child index).result tree = (.ok (), tree.place parent child index) := by
  obtain ⟨_, hfits', hfree⟩ := hforest.freed hfits
  have hattached : ∀ id,
      ((tree.freed child).attach parent child index).contains id = tree.contains id :=
    fun id => (contains_attach _ parent child index id).trans (contains_freed tree child id)
  have hsent : ∀ (state : RegionTree) (message : Message) (id : CellId),
      (state.send message).contains id = state.contains id :=
    fun state message id => (sameLinks_send state message).contains id
  have hmoved : ∀ id, (((tree.freed child).attach parent child index).send
      (.parent child (tree.parent child) (some parent))).contains id = tree.contains id :=
    fun id => (hsent _ _ id).trans (hattached id)
  obtain ⟨htold, hknown⟩ := result_forM (tree.parent child).toList
    (fun old => announce old (.children old)) (fun tree old => tree.send (.children old))
    (fun state => ∀ id, state.contains id = tree.contains id) (fun state hstate old hold =>
      ⟨result_announce ((hstate old).trans
        (hforest.contains_parent (Option.mem_toList.mp hold))) _,
        fun id => (hsent state _ id).trans (hstate id)⟩) hmoved
  rw [place, result_bind result_get]
  dsimp only
  rw [result_bind (result_free hforest hfits.known_child), result_bind (result_attach hfits' hfree),
    result_bind (result_announce ((hattached child).trans hfits.known_child) _), result_bind htold,
    result_bind (result_announce ((hknown parent).trans hfits.known_parent) _), result_rebind,
    ← List.append_assoc]
  rfl

/-! Edits as a whole. -/

theorem result_check (tree : RegionTree) (parent child : CellId) (index : Nat) :
    (check parent child index).result tree = match tree.placeable parent child index with
      | .ok () => (.ok (), tree)
      | .error failure => (.error (.refused failure), tree) := by
  unfold check placeable
  cases habove : tree.cell? parent with
  | none => rw [result_bind_error (result_requireCell_none habove)]
  | some above =>
      rw [result_bind (result_requireCell habove)]
      cases hbelow : tree.cell? child with
      | none => rw [result_bind_error (result_requireCell_none hbelow)]
      | some below =>
          rw [result_bind (result_requireCell hbelow), result_bind result_get]
          dsimp only
          by_cases hpinned : below.pinned = true
          · rw [result_bind_error (result_refuseIf_error hpinned), if_pos hpinned]
          rw [result_bind (result_refuseIf hpinned), if_neg hpinned]
          by_cases hchild : above.children.contains child = true
          · rw [result_bind_error (result_refuseIf_error hchild), if_pos hchild]
          rw [result_bind (result_refuseIf hchild), if_neg hchild]
          by_cases hinside : parent = child ∨ child ∈ tree.ancestors parent
          · rw [result_bind_error (result_refuseIf_error hinside), if_pos hinside]
          rw [result_bind (result_refuseIf hinside), if_neg hinside]
          by_cases hindex : above.children.length < index
          · rw [result_refuseIf_error hindex, if_pos hindex]
          · rw [result_refuseIf hindex, if_neg hindex]

theorem result_insert (hforest : tree.Forest) (parent child : CellId) (index : Nat) :
    (insert parent child index).result tree = whole tree (tree.insert parent child index) := by
  have hcheck := result_check tree parent child index
  unfold RegionTree.insert
  cases hplaceable : tree.placeable parent child index with
  | ok _ =>
      rw [hplaceable] at hcheck
      rw [insert, result_bind hcheck]
      exact result_place hforest (fits_of_placeable hforest hplaceable)
  | error failure =>
      rw [hplaceable] at hcheck
      rw [insert, result_bind_error hcheck]
      rfl

theorem result_append (hforest : tree.Forest) (parent child : CellId) :
    (append parent child).result tree = whole tree (tree.append parent child) := by
  cases hcell : tree.cell? parent with
  | none =>
      have hplaceable : tree.append parent child = .error (.unknownCell parent) := by
        simp [RegionTree.append, RegionTree.insert, placeable, hcell]
      rw [append, result_bind_error (result_requireCell_none hcell), hplaceable]
      rfl
  | some above =>
      rw [append, result_bind (result_requireCell hcell), ← children_of_cell? hcell]
      exact result_insert hforest parent child _

theorem result_remove (hforest : tree.Forest) (parent child : CellId) :
    (remove parent child).result tree = whole tree (tree.remove parent child) := by
  rw [remove, result_bind result_get]
  unfold RegionTree.remove
  split
  next hchild =>
    have hparent := (hforest.mem_children_iff parent child).mp (List.contains_iff_mem.mp hchild)
    have hknown : tree.contains child = true := contains_of_isParent hparent
    have hdetached : ∀ id, (tree.detach parent child).contains id = tree.contains id :=
      fun id => ((sameLinks_detach tree parent child).contains id).trans
        (contains_unlink tree parent child id)
    rw [result_bind (result_refuseIf (not_not.mpr hchild)),
      result_bind (result_unlink (hforest.contains_parent hparent) hknown),
      result_bind (result_announce ((hdetached child).trans hknown) _),
      result_bind (result_announce (((sameLinks_send _ _).contains parent).trans
        ((hdetached parent).trans (hforest.contains_parent hparent))) _), result_rebind]
    rfl
  next hchild =>
    rw [result_bind_error (result_refuseIf_error hchild)]
    rfl

end Edits

end Stepwise

end RegionLayout
