import RegionLayout.Proofs.Tree.Session

/-!
Operations on a tree of cells, and what each does to the links between cells. Attaching and
detaching rewrite the two ends of one link, a new cell has none, and nothing else touches them.
-/

namespace RegionLayout

/-- What an application can do with a tree of cells. What is refused changes nothing. -/
inductive TreeOperation where
  | createCell (recipes : Recipes)
  | createRoot (recipes : Recipes)
  | append (parent child : CellId)
  | insert (parent child : CellId) (index : Nat)
  | remove (parent child : CellId)
  | setRecipe (coordinate : CoordinateId) (recipe : LengthId)
  | setTare (coordinate : CoordinateId) (tare : Option Float)
  | calculate (coordinate : CoordinateId)
  | rename (cell : CellId) (name : Option String)
  /-- Whatever happens to lengths of any kind, and to the names they are kept under. -/
  | replaceLengths (network : Network) (names : List (String × LengthId))

namespace RegionTree

def perform (tree : RegionTree) : TreeOperation → RegionTree
  | .createCell recipes => (tree.createCell recipes).2
  | .createRoot recipes => (tree.createRoot recipes).2
  | .append parent child => tree.attempt (tree.append parent child)
  | .insert parent child index => tree.attempt (tree.insert parent child index)
  | .remove parent child => tree.attempt (tree.remove parent child)
  | .setRecipe coordinate recipe => tree.attempt (tree.setRecipe coordinate recipe)
  | .setTare coordinate tare => tree.attempt (tree.setTare coordinate tare)
  | .calculate coordinate => (tree.calculate coordinate).2
  | .rename cell name => tree.attempt (tree.rename cell name)
  | .replaceLengths network names => { tree with network, names }

/-- The tree that operations make, starting from none. -/
def built (operations : List TreeOperation) : RegionTree :=
  operations.foldl perform empty

/-- Whether a cell is a root, which may not hang from another. -/
def isPinned (tree : RegionTree) (id : CellId) : Bool :=
  (tree.cell? id).any (·.pinned)

/-! Operations that leave all links as they are. -/

structure SameLinks (before after : RegionTree) : Prop where
  size : after.size = before.size
  links : ∀ id, after.links id = before.links id

namespace SameLinks

variable {before middle after : RegionTree}

theorem refl (tree : RegionTree) : SameLinks tree tree :=
  ⟨rfl, fun _ => rfl⟩

theorem symm (hsame : SameLinks before after) : SameLinks after before :=
  ⟨hsame.size.symm, fun id => (hsame.links id).symm⟩

theorem trans (hfirst : SameLinks before middle) (hsecond : SameLinks middle after) :
    SameLinks before after :=
  ⟨hsecond.size.trans hfirst.size, fun id => (hsecond.links id).trans (hfirst.links id)⟩

theorem of_cells (hcells : after.cells = before.cells) : SameLinks before after where
  size := by rw [RegionTree.size, hcells, RegionTree.size]
  links id := by rw [RegionTree.links, cell?, hcells, RegionTree.links, cell?]

theorem of_revalues (hrevalues : Revalues before after) : SameLinks before after :=
  ⟨hrevalues.size, hrevalues.links⟩

theorem parent (hsame : SameLinks before after) (id : CellId) :
    after.parent id = before.parent id := by
  rw [parent_eq_links, hsame.links, parent_eq_links]

theorem children (hsame : SameLinks before after) (id : CellId) :
    after.children id = before.children id := by
  rw [children_eq_links, hsame.links, children_eq_links]

theorem isPinned (hsame : SameLinks before after) (id : CellId) :
    after.isPinned id = before.isPinned id := by
  have hlinks : ∀ tree : RegionTree, tree.isPinned id = (tree.links id).any (·.pinned) := by
    intro tree
    rw [RegionTree.isPinned, RegionTree.links, Option.any_map]
  rw [hlinks, hsame.links, hlinks]

theorem contains (hsame : SameLinks before after) (id : CellId) :
    after.contains id = before.contains id := by
  have hlinks : ∀ tree : RegionTree, tree.contains id = (tree.links id).isSome := by
    intro tree
    rw [RegionTree.contains, RegionTree.links, Option.isSome_map]
  rw [hlinks, hsame.links, hlinks]

end SameLinks

variable {tree after : RegionTree}

theorem sameLinks_setName (tree : RegionTree) (id : CellId) (name : Option String) :
    SameLinks tree (tree.setName id name) where
  size := size_editCell tree id _
  links other := by
    rw [links, setName, cell?_editCell, links]
    split
    · cases tree.cell? other <;> rfl
    · rfl

theorem sameLinks_send (tree : RegionTree) (message : Message) :
    SameLinks tree (tree.send message) :=
  .of_cells rfl

theorem sameLinks_reassign (tree : RegionTree) (id : CoordinateId) (coordinate : Coordinate)
    (recipe : LengthId) : SameLinks tree (tree.reassign id coordinate recipe) :=
  ⟨size_editCell _ id.cell _, links_setCoordinate _ id _⟩

theorem sameLinks_setRecipe {id : CoordinateId} {recipe : LengthId}
    (hset : tree.setRecipe id recipe = .ok after) : SameLinks tree after := by
  obtain ⟨coordinate, hcoordinate, rfl⟩ := exists_of_setRecipe hset
  have hassigned := sameLinks_reassign tree id coordinate recipe
  have hbound : SameLinks (tree.reassign id coordinate recipe)
      ((tree.reassign id coordinate recipe).bindLength id recipe) := .of_cells rfl
  exact (hassigned.trans hbound).trans (.of_revalues (announceRecipe_spec _ id _).1.toRevalues)

theorem sameLinks_setTare {id : CoordinateId} {tare : Option Float}
    (hset : tree.setTare id tare = .ok after) : SameLinks tree after := by
  rw [setTare_eq_ok hset]
  exact .of_revalues (retares_tareAs tree id tare).toRevalues

theorem sameLinks_rename {id : CellId} {name : Option String}
    (hrename : tree.rename id name = .ok after) : SameLinks tree after := by
  rw [rename_eq_ok hrename]
  exact sameLinks_setName tree id name

theorem sameLinks_perform {operation : TreeOperation}
    (hkind : match operation with
      | .createCell _ | .createRoot _ | .append _ _ | .insert _ _ _ | .remove _ _ => False
      | _ => True) : SameLinks tree (tree.perform operation) := by
  cases operation with
  | createCell recipes => exact hkind.elim
  | createRoot recipes => exact hkind.elim
  | append parent child => exact hkind.elim
  | insert parent child index => exact hkind.elim
  | remove parent child => exact hkind.elim
  | setRecipe coordinate recipe => exact attempt_of (.refl tree) fun _ => sameLinks_setRecipe
  | setTare coordinate tare => exact attempt_of (.refl tree) fun _ => sameLinks_setTare
  | calculate coordinate => exact .of_revalues (calculate_spec tree coordinate).2.1
  | rename cell name => exact attempt_of (.refl tree) fun _ => sameLinks_rename
  | replaceLengths network names => exact .of_cells rfl

/-! New cells. -/

theorem sameLinks_storeTares (tare : Option Float) (ids : List CoordinateId) (tree : RegionTree) :
    SameLinks tree (ids.foldl (fun tree id => (tree.storeTare id tare).2) tree) :=
  foldl_related (r := SameLinks) .refl .trans
    (fun state id _ => .of_revalues (retares_storeTare state id tare).toRevalues) tree

theorem sameLinks_createRoot (tree : RegionTree) (recipes : Recipes) :
    SameLinks (tree.addCell recipes true) (tree.createRoot recipes).2 := by
  unfold createRoot
  generalize tree.addCell recipes true = added
  exact sameLinks_storeTares _ _ added

theorem cell?_addCell (tree : RegionTree) (recipes : Recipes) (pinned : Bool) (id : CellId) :
    (tree.addCell recipes pinned).cell? id =
      if id = tree.nextCell then some (.of recipes pinned) else tree.cell? id := by
  rw [cell?, cells_addCell]
  exact cell?_withCell tree (.of recipes pinned) id

/-! The two ends of a link. -/

section Ends

variable (tree) (id other : CellId) (arrange : List CellId → List CellId) (parent : Option CellId)

theorem contains_editCell (change : Cell → Cell) :
    (tree.editCell id change).contains other = tree.contains other := by
  rw [contains, cell?_editCell, contains]
  split
  · exact Option.isSome_map
  · rfl

theorem isPinned_setChildren : (tree.editCell id fun cell =>
    { cell with children := arrange cell.children }).isPinned other = tree.isPinned other := by
  rw [isPinned, cell?_editCell, isPinned]
  split
  · cases tree.cell? other <;> rfl
  · rfl

theorem isPinned_setParent : (tree.editCell id fun cell => { cell with parent }).isPinned other =
    tree.isPinned other := by
  rw [isPinned, cell?_editCell, isPinned]
  split
  · cases tree.cell? other <;> rfl
  · rfl

theorem parent_setChildren : (tree.editCell id fun cell =>
    { cell with children := arrange cell.children }).parent other = tree.parent other := by
  rw [RegionTree.parent, cell?_editCell, RegionTree.parent]
  split
  · cases tree.cell? other <;> rfl
  · rfl

theorem children_setChildren : (tree.editCell id fun cell =>
    { cell with children := arrange cell.children }).children other =
      if other = id ∧ tree.contains id then arrange (tree.children id)
      else tree.children other := by
  rw [children_editCell, contains, children]
  by_cases heq : other = id
  · subst heq
    cases hcell : tree.cell? other <;> simp [children, hcell]
  · simp [heq]

theorem parent_setParent : (tree.editCell id fun cell => { cell with parent }).parent other =
    if other = id ∧ tree.contains id then parent else tree.parent other := by
  rw [RegionTree.parent, cell?_editCell, RegionTree.parent, contains]
  by_cases heq : other = id
  · subst heq
    cases hcell : tree.cell? other <;> simp
  · simp [heq]

end Ends

end RegionTree

end RegionLayout
