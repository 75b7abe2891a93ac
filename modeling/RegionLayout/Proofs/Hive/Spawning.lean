import RegionLayout.Proofs.Hive.Fixpoint
import RegionLayout.Proofs.Hive.Routing
import RegionLayout.Proofs.Tree.Newcomers
import RegionLayout.Proofs.Tree.Refusals

/-!
Spawning. A region is spawned as a whole or not at all: if its parent exists and has room where the
region is asked for, none of the steps that follow can stop halfway, for the tree of a hive is a
forest and a new cell fits anywhere in it.
-/

namespace RegionLayout

open Relation

/-! Hives keep forests. -/

namespace RegionTree

variable {tree after : RegionTree}

theorem cells_watch (tree : RegionTree) (tag : String) (target : WatchTarget) :
    (tree.watch tag target).2.cells = tree.cells := by
  unfold watch
  split
  · cases target <;> rfl
  · rfl

end RegionTree

namespace Hive

variable {hive after : Hive} {recipe : RegionRecipe} {cell : CellId}

/-! What a spawn comes to. -/

/-- Where a recipe asks to be attached: to the root if it says nothing. -/
def parentFor (hive : Hive) (recipe : RegionRecipe) : CellId :=
  recipe.parent.getD hive.root

/-- The position a recipe asks for: the last if it says nothing. -/
def indexFor (hive : Hive) (recipe : RegionRecipe) : Nat :=
  recipe.index.getD (hive.tree.children (hive.parentFor recipe)).length

/-- The tree with the cell of a new region in its place. -/
def planted (hive : Hive) (recipe : RegionRecipe) : RegionTree :=
  (hive.tree.addCell recipe.recipes false).place (hive.parentFor recipe) hive.tree.nextCell
    (hive.indexFor recipe)

def spawned (hive : Hive) (recipe : RegionRecipe) : Hive :=
  let row := hive.entities.add (.cell hive.tree.nextCell :: recipe.components)
  (({ hive.adopt (hive.planted recipe) with
      tree := (hive.planted recipe).setEntity hive.tree.nextCell row.1
      entities := row.2 }).register hive.tree.nextCell).follow
    (.regionCreated hive.tree.nextCell (hive.parentFor recipe) row.1)

theorem spawn_of_unknown (hunknown : ¬ hive.tree.contains (hive.parentFor recipe) = true) :
    hive.spawn recipe = .error (.unknownCell (hive.parentFor recipe)) := by
  rw [RegionTree.contains, Option.not_isSome_iff_eq_none, parentFor] at hunknown
  rw [spawn, hunknown]
  rfl

theorem spawn_of_beyond (hknown : hive.tree.contains (hive.parentFor recipe) = true)
    (hbeyond : (hive.tree.children (hive.parentFor recipe)).length < hive.indexFor recipe) :
    hive.spawn recipe = .error (.indexOutOfBounds (hive.parentFor recipe) (hive.indexFor recipe)
      (hive.tree.children (hive.parentFor recipe)).length) := by
  obtain ⟨above, habove⟩ := Option.isSome_iff_exists.mp hknown
  have hchildren := RegionTree.children_of_cell? habove
  rw [indexFor, hchildren] at hbeyond ⊢
  rw [parentFor] at habove ⊢
  rw [spawn, habove]
  dsimp only
  rw [if_pos hbeyond]

theorem spawn_of_room (hknown : hive.tree.contains (hive.parentFor recipe) = true)
    (hroom : hive.indexFor recipe ≤ (hive.tree.children (hive.parentFor recipe)).length) :
    hive.spawn recipe = .ok (hive.tree.nextCell, hive.spawned recipe) := by
  obtain ⟨above, habove⟩ := Option.isSome_iff_exists.mp hknown
  have hchildren := RegionTree.children_of_cell? habove
  have hindex : hive.indexFor recipe = recipe.index.getD above.children.length := by
    rw [indexFor, hchildren]
  rw [hindex, hchildren] at hroom
  have hcreated : hive.tree.createCell recipe.recipes =
      (hive.tree.nextCell, hive.tree.addCell recipe.recipes false) := rfl
  rw [spawned, planted, hindex]
  rw [parentFor] at habove ⊢
  rw [spawn, habove]
  dsimp only
  rw [if_neg (Nat.not_lt.mpr hroom), hcreated]
  dsimp only
  generalize (hive.tree.addCell recipe.recipes false).place _ _ _ = planted
  rfl

theorem spawn_eq_ok_iff : hive.spawn recipe = .ok (cell, after) ↔
    hive.tree.contains (hive.parentFor recipe) = true ∧
      hive.indexFor recipe ≤ (hive.tree.children (hive.parentFor recipe)).length ∧
        cell = hive.tree.nextCell ∧ after = hive.spawned recipe := by
  by_cases hknown : hive.tree.contains (hive.parentFor recipe) = true
  · by_cases hroom : hive.indexFor recipe ≤
        (hive.tree.children (hive.parentFor recipe)).length
    · rw [spawn_of_room hknown hroom]
      simp [hknown, hroom, eq_comm]
    · rw [spawn_of_beyond hknown (Nat.lt_of_not_le hroom)]
      simp [hroom]
  · rw [spawn_of_unknown hknown]
    simp [hknown]

/-- Why a region is not spawned, in the order in which the reasons are given. -/
def spawnRefusals (hive : Hive) (recipe : RegionRecipe) : List (Prop × LayoutError) :=
  [(¬ hive.tree.contains (hive.parentFor recipe) = true, .unknownCell (hive.parentFor recipe)),
    ((hive.tree.children (hive.parentFor recipe)).length < hive.indexFor recipe,
      .indexOutOfBounds (hive.parentFor recipe) (hive.indexFor recipe)
        (hive.tree.children (hive.parentFor recipe)).length)]

theorem spawn_eq_error_iff {failure : LayoutError} :
    hive.spawn recipe = .error failure ↔ FirstOf (hive.spawnRefusals recipe) failure := by
  unfold spawnRefusals
  by_cases hknown : hive.tree.contains (hive.parentFor recipe) = true
  · rw [FirstOf.cons_of_neg (not_not.mpr hknown)]
    by_cases hroom : hive.indexFor recipe ≤
        (hive.tree.children (hive.parentFor recipe)).length
    · rw [spawn_of_room hknown hroom, FirstOf.cons_of_neg (Nat.not_lt.mpr hroom)]
      exact iff_of_false nofun FirstOf.not_nil
    · rw [spawn_of_beyond hknown (Nat.lt_of_not_le hroom),
        FirstOf.cons_of_pos (Nat.lt_of_not_le hroom), Except.error.injEq]
  · rw [spawn_of_unknown hknown, FirstOf.cons_of_pos hknown, Except.error.injEq]

/-- A hive after a region was spawned in it. -/
structure Spawns (before after : Hive) (recipe : RegionRecipe) (cell : CellId) : Prop where
  fresh : before.tree.contains cell = false
  /-- The new cell hangs from its parent, has the recipe's lengths and its own entity, and nothing
  hangs from it. -/
  created : (after.tree.cell? cell).map Cell.bare = some { Cell.of recipe.recipes false with
    parent := some (before.parentFor recipe)
    entity := some ⟨before.entities.size⟩ }
  room : before.indexFor recipe ≤ (before.tree.children (before.parentFor recipe)).length
  /-- The other cells are as they were, but for the children of the parent. -/
  others : ∀ other ≠ cell, after.tree.cell? other = (before.tree.cell? other).map fun held =>
    if other = before.parentFor recipe then
      { held with children := held.children.insertIdx (before.indexFor recipe) cell }
    else held
  entities : after.entities.rows =
    before.entities.rows.push (.cell cell :: recipe.components)
  component : after.entities.component? ⟨before.entities.size⟩ .cell = some (.cell cell)
  registry : after.registry = before.registry ++ cell.coordinates
  fresh_pending : ∀ id, id ∈ after.pending.fresh ↔
    id ∈ before.pending.fresh ∨ id ∈ cell.coordinates
  rest : after = { before with
    tree := after.tree
    entities := after.entities
    registry := after.registry
    pending := after.pending
    trace := after.trace }

theorem tree_spawned (hive : Hive) (recipe : RegionRecipe) : (hive.spawned recipe).tree =
    (hive.planted recipe).setEntity hive.tree.nextCell ⟨hive.entities.size⟩ := by
  unfold spawned
  generalize hive.planted recipe = planted
  rfl

theorem entities_spawned (hive : Hive) (recipe : RegionRecipe) : (hive.spawned recipe).entities =
    (hive.entities.add (.cell hive.tree.nextCell :: recipe.components)).2 := by
  unfold spawned
  generalize hive.planted recipe = planted
  rfl

theorem registry_spawned (hive : Hive) (recipe : RegionRecipe) :
    (hive.spawned recipe).registry = hive.registry ++ hive.tree.nextCell.coordinates := by
  unfold spawned
  generalize hive.planted recipe = planted
  rfl

theorem mem_fresh_spawned (hive : Hive) (recipe : RegionRecipe) (id : CoordinateId) :
    id ∈ (hive.spawned recipe).pending.fresh ↔
      id ∈ hive.pending.fresh ∨ id ∈ hive.tree.nextCell.coordinates := by
  refine CoordinateSet.mem_foldl_insert.trans ?_
  show id ∈ (hive.adopt (hive.planted recipe)).pending.fresh ∨ _ ↔ _
  rw [adopt, Backlog.fresh_foldl_hear]

theorem rest_spawned (hive : Hive) (recipe : RegionRecipe) : hive.spawned recipe = { hive with
    tree := (hive.spawned recipe).tree
    entities := (hive.spawned recipe).entities
    registry := (hive.spawned recipe).registry
    pending := (hive.spawned recipe).pending
    trace := (hive.spawned recipe).trace } := by
  unfold spawned
  generalize hive.planted recipe = planted
  rfl

theorem component?_spawned (hive : Hive) (recipe : RegionRecipe) :
    (hive.spawned recipe).entities.component? ⟨hive.entities.size⟩ .cell =
      some (.cell hive.tree.nextCell) := by
  rw [entities_spawned, Entities.component?]
  have hrow := hive.entities.components?_add (.cell hive.tree.nextCell :: recipe.components)
  rw [show (hive.entities.add (.cell hive.tree.nextCell :: recipe.components)).1 =
    ⟨hive.entities.size⟩ from rfl] at hrow
  rw [hrow]
  rfl

section Room

variable (hforest : hive.tree.Forest)
  (hknown : hive.tree.contains (hive.parentFor recipe) = true)
  (hroom : hive.indexFor recipe ≤ (hive.tree.children (hive.parentFor recipe)).length)

include hforest hknown hroom

theorem spawns_spawned : Spawns hive (hive.spawned recipe) recipe hive.tree.nextCell where
  fresh := hive.tree.not_contains_nextCell
  created := by
    have hplanted := RegionTree.bare_place_nextCell hforest recipe.recipes hknown hroom
    obtain ⟨held, hheld, hbare⟩ := Option.map_eq_some_iff.mp hplanted
    rw [tree_spawned, RegionTree.setEntity, RegionTree.cell?_editCell, if_pos rfl, planted, hheld,
      Option.map_some, Option.map_some]
    have hnamed : { held with entity := some ⟨hive.entities.size⟩ }.bare =
        { held.bare with entity := some ⟨hive.entities.size⟩ } := rfl
    rw [hnamed, hbare]
  room := hroom
  others other hother := by
    rw [tree_spawned, RegionTree.setEntity, RegionTree.cell?_editCell, if_neg hother, planted,
      RegionTree.cell?_place_nextCell hforest recipe.recipes hknown hroom hother]
  entities := congrArg Entities.rows (entities_spawned hive recipe)
  component := component?_spawned hive recipe
  registry := registry_spawned hive recipe
  fresh_pending := mem_fresh_spawned hive recipe
  rest := rest_spawned hive recipe

end Room

theorem spawns_of_spawn (hforest : hive.tree.Forest)
    (hspawn : hive.spawn recipe = .ok (cell, after)) :
    Spawns hive after recipe cell := by
  obtain ⟨hknown, hroom, rfl, rfl⟩ := spawn_eq_ok_iff.mp hspawn
  exact spawns_spawned hforest hknown hroom

/-! Forests after any moves. -/

theorem forest_spawn (hforest : hive.tree.Forest) (hspawn : hive.spawn recipe = .ok (cell, after)) :
    after.tree.Forest := by
  obtain ⟨hknown, hroom, rfl, rfl⟩ := spawn_eq_ok_iff.mp hspawn
  have hplanted : (hive.planted recipe).Forest := (hforest.addCell recipe.recipes false).insert
    (RegionTree.insert_nextCell hforest recipe.recipes hknown hroom)
  rw [tree_spawned]
  refine hplanted.sameLinks ⟨RegionTree.size_editCell _ _ _, fun id => ?_⟩
  rw [RegionTree.links, RegionTree.setEntity, RegionTree.cell?_editCell, RegionTree.links]
  split
  · cases (hive.planted recipe).cell? id <;> rfl
  · rfl

theorem forest_attempt (hforest : hive.tree.Forest) (recipe : RegionRecipe) :
    (hive.attempt (hive.spawn recipe)).tree.Forest := by
  cases hspawn : hive.spawn recipe with
  | error failure => exact hforest
  | ok result => exact forest_spawn hforest hspawn

theorem forest_perform (hsound : hive.Sound) (hforest : hive.tree.Forest) (action : Action) :
    (hive.perform action).tree.Forest := by
  cases action with
  | edit edit => exact hforest.apply edit
  | calculate coordinate => exact hforest.perform (.calculate coordinate)
  | spawn names parent index components =>
      simp only [perform]
      split
      next recipes _ => exact forest_attempt hforest _
      next => exact hforest
  | newRegion plan =>
      simp only [perform]
      split
      next builder _ =>
        unfold newRegion
        split
        next => exact hforest
        next recipe _ => exact forest_attempt hforest recipe
      next => exact hforest
  | setViewport width height =>
      show ((hive.tree.setConstant hive.width width).setConstant hive.height height).Forest
      rw [RegionTree.setConstant_eq_network, RegionTree.setConstant_eq_network]
      exact hforest.sameLinks (.of_cells rfl)
  | layout =>
      obtain ⟨_, _, _, hrecalculates⟩ := exists_recalculates hsound
      exact hforest.sameLinks (.of_revalues hrecalculates.revalues_layout)

theorem forest_move (hsound : hive.Sound) (hforest : hive.tree.Forest) (move : Move) :
    (hive.move move).tree.Forest := by
  cases move with
  | act action => exact forest_perform hsound hforest action
  | bind owner name =>
      simp only [Hive.move]
      split
      next => exact hforest.sameLinks (.of_cells rfl)
      next => exact hforest
  | watch tag target =>
      exact hforest.sameLinks (.of_cells (RegionTree.cells_watch hive.tree tag target))
  | unwatch tag => exact hforest.sameLinks (.of_cells rfl)

theorem forest_ofConfig (config : HiveConfig) : (ofConfig config).tree.Forest := by
  have hlengths : (viewportLengths config).Forest :=
    RegionTree.Forest.empty.sameLinks (.of_cells rfl)
  rw [ofConfig_eq]
  exact (hlengths.perform (.createRoot viewportRecipes)).sameLinks
    (RegionTree.sameLinks_setName _ ⟨0⟩ _)

/-- However the moves went, the cells of a hive form a forest. -/
theorem forest_reached (config : HiveConfig) (moves : List Move) :
    (reached config moves).tree.Forest := by
  have hboth : (reached config moves).Sound ∧ (reached config moves).tree.Forest :=
    List.foldlRecOn (motive := fun hive => hive.Sound ∧ hive.tree.Forest) moves Hive.move
      ⟨sound_ofConfig config, forest_ofConfig config⟩
      fun _ hboth move _ => ⟨hboth.1.move move, forest_move hboth.1 hboth.2 move⟩
  exact hboth.2

end Hive

/-! Trees taken up one after the other. -/

namespace RegionTree

theorem recorded_addCell (tree : RegionTree) (recipes : Recipes) (pinned : Bool) :
    Network.Recorded tree.network (tree.addCell recipes pinned).network := by
  have hlistens : ∀ pairs, Network.Recorded tree.network
      ((tree.withCell (.of recipes pinned)).listenAll pairs).network := by
    intro pairs
    refine foldl_related (r := fun first second : RegionTree =>
      Network.Recorded first.network second.network) (fun _ => .refl _) .trans
      (fun state pair _ => ?_) (tree.withCell (.of recipes pinned))
    exact Network.Recorded.of_journal rfl
  rw [addCell_eq]
  exact (hlistens _).trans (murmurs_rebind _ _).recorded

end RegionTree

namespace Hive

theorem adopt_of_journal (hive : Hive) {tree : RegionTree}
    (hjournal : tree.network.journal = hive.tree.network.journal) :
    hive.adopt tree = { hive with tree } := by
  have hnews := Network.news_of_journal hjournal
  show ({ hive with
    tree
    pending := (Network.news hive.tree.network tree.network).foldl
      (Backlog.hear hive.isRegistered) hive.pending } : Hive) = _
  rw [hnews]
  rfl

theorem adopt_adopt (hive : Hive) {first second : RegionTree}
    (hfirst : Network.Recorded hive.tree.network first.network)
    (hsecond : Network.Recorded first.network second.network) :
    (hive.adopt first).adopt second = hive.adopt second := by
  have hnews := Network.news_trans hfirst hsecond
  show ({ hive with
    tree := second
    pending := (Network.news first.network second.network).foldl
      (Backlog.hear hive.isRegistered) ((Network.news hive.tree.network first.network).foldl
        (Backlog.hear hive.isRegistered) hive.pending) } : Hive) = _
  rw [← List.foldl_append, ← hnews]
  rfl

end Hive

/-! Spawning step by step. -/

abbrev HiveSteps (β : Type) := Steps Stop Hive β

namespace HiveSteps

open Steps

variable {β : Type}

/-- Steps that are either completed or refused with nothing changed. -/
def whole (hive : Hive) : Except LayoutError (β × Hive) → Except Stop β × Hive
  | .ok (item, after) => (.ok item, after)
  | .error failure => (.error (.refused failure), hive)

/-- Steps of its tree. The hive hears of them also if they stop halfway. -/
def onTree (steps : Stepwise β) : HiveSteps β := do
  let hive ← get
  let (outcome, tree) := steps.result hive.tree
  set (hive.adopt tree)
  match outcome with
  | .ok item => return item
  | .error stop => throw stop

def refuseIf (reason : Prop) [Decidable reason] (failure : LayoutError) : HiveSteps Unit :=
  if reason then throw (.refused failure) else pure ()

def createCell (recipes : Recipes) : HiveSteps CellId := do
  let hive ← get
  let (cell, tree) := hive.tree.createCell recipes
  set (hive.adopt tree)
  return cell

def attach (parent cell : CellId) : Option Nat → HiveSteps Unit
  | some index => onTree (Stepwise.insert parent cell index)
  | none => onTree (Stepwise.append parent cell)

def addEntity (components : List Component) : HiveSteps EntityId := do
  let hive ← get
  let (entity, entities) := hive.entities.add components
  set { hive with entities }
  return entity

def setEntity (cell : CellId) (entity : EntityId) : HiveSteps Unit :=
  onTree (Stepwise.edit cell fun held => { held with entity := some entity })

/-- Registers the coordinates of a cell, if there is one. -/
def register (cell : CellId) : HiveSteps Unit :=
  modify fun hive => if hive.tree.contains cell then hive.register cell else hive

def spawn (recipe : RegionRecipe) : HiveSteps CellId := do
  let hive ← get
  let parent := recipe.parent.getD hive.root
  let above ← onTree (Stepwise.requireCell parent)
  let size := above.children.length
  refuseIf (size < recipe.index.getD size) (.indexOutOfBounds parent (recipe.index.getD size) size)
  let cell ← createCell recipe.recipes
  attach parent cell recipe.index
  let entity ← addEntity (.cell cell :: recipe.components)
  setEntity cell entity
  register cell
  modify fun hive => hive.follow (.regionCreated cell parent entity)
  return cell

section Result

variable {hive : Hive} {item : β}

theorem result_onTree {steps : Stepwise β} {tree : RegionTree}
    (hsteps : steps.result hive.tree = (.ok item, tree)) :
    (onTree steps).result hive = (.ok item, hive.adopt tree) := by
  rw [onTree, result_bind result_get, hsteps]
  rfl

theorem result_onTree_error {steps : Stepwise β} {tree : RegionTree} {stop : Stop}
    (hsteps : steps.result hive.tree = (.error stop, tree)) :
    (onTree steps).result hive = (.error stop, hive.adopt tree) := by
  rw [onTree, result_bind result_get, hsteps]
  rfl

theorem result_refuseIf {reason : Prop} [Decidable reason] {failure : LayoutError}
    (hreason : ¬ reason) : (refuseIf reason failure).result hive = (.ok (), hive) := by
  rw [refuseIf, if_neg hreason]
  rfl

theorem result_refuseIf_error {reason : Prop} [Decidable reason] {failure : LayoutError}
    (hreason : reason) :
    (refuseIf reason failure).result hive = (.error (.refused failure), hive) := by
  rw [refuseIf, if_pos hreason]
  rfl

end Result

/-! Steps that go through. -/

section Spawn

variable {hive : Hive} {recipe : RegionRecipe}

theorem result_requireCell {id : CellId} {cell : Cell} (hcell : hive.tree.cell? id = some cell) :
    (onTree (Stepwise.requireCell id)).result hive = (.ok cell, hive) := by
  rw [result_onTree (Stepwise.result_requireCell hcell), hive.adopt_of_journal rfl]

theorem result_setEntity {cell : CellId} (hknown : hive.tree.contains cell = true)
    (entity : EntityId) : (setEntity cell entity).result hive =
      (.ok (), { hive with tree := hive.tree.setEntity cell entity }) := by
  rw [setEntity, result_onTree (Stepwise.result_edit hknown _)]
  exact congrArg (Except.ok (), ·) (hive.adopt_of_journal rfl)

theorem result_register {cell : CellId} (hknown : hive.tree.contains cell = true) :
    (register cell).result hive = (.ok (), hive.register cell) :=
  congrArg (Except.ok (), ·) (if_pos hknown)

section Room

variable (hforest : hive.tree.Forest)
  (hknown : hive.tree.contains (hive.parentFor recipe) = true)
  (hroom : hive.indexFor recipe ≤ (hive.tree.children (hive.parentFor recipe)).length)

include hforest hknown hroom

/-- A new cell is attached where it is asked for, at a position or as the last. -/
theorem result_attach :
    (attach (hive.parentFor recipe) hive.tree.nextCell recipe.index).result
        (hive.adopt (hive.tree.addCell recipe.recipes false)) =
      (.ok (), hive.adopt (hive.planted recipe)) := by
  have hadded := hforest.addCell recipe.recipes false
  have hinserted : (hive.tree.addCell recipe.recipes false).insert (hive.parentFor recipe)
      hive.tree.nextCell (hive.indexFor recipe) = .ok (hive.planted recipe) :=
    RegionTree.insert_nextCell hforest recipe.recipes hknown hroom
  have hplanted : Network.Recorded (hive.tree.addCell recipe.recipes false).network
      (hive.planted recipe).network := (RegionTree.logs_place _ _ _ _).recorded
  have hchildren : (hive.tree.addCell recipe.recipes false).children (hive.parentFor recipe) =
      hive.tree.children (hive.parentFor recipe) := RegionTree.children_addCell _ _ _ _
  have hrecorded := RegionTree.recorded_addCell hive.tree recipe.recipes false
  generalize hive.planted recipe = planted at hinserted hplanted ⊢
  generalize hive.tree.addCell recipe.recipes false = added at *
  rw [← hive.adopt_adopt hrecorded hplanted]
  cases hindex : recipe.index with
  | some index =>
      have hinsert := Stepwise.result_insert hadded (hive.parentFor recipe) hive.tree.nextCell index
      rw [Hive.indexFor, hindex, Option.getD_some] at hinserted
      rw [hinserted, Stepwise.whole] at hinsert
      rw [attach, result_onTree hinsert]
  | none =>
      have happend := Stepwise.result_append hadded (hive.parentFor recipe) hive.tree.nextCell
      rw [Hive.indexFor, hindex, Option.getD_none, ← hchildren] at hinserted
      rw [RegionTree.append, hinserted, Stepwise.whole] at happend
      rw [attach, result_onTree happend]

theorem contains_planted : (hive.planted recipe).contains hive.tree.nextCell = true := by
  have hplanted := RegionTree.bare_place_nextCell hforest recipe.recipes hknown hroom
  obtain ⟨held, hheld, _⟩ := Option.map_eq_some_iff.mp hplanted
  rw [RegionTree.contains, Hive.planted, hheld, Option.isSome_some]

theorem result_spawn_of_room :
    (spawn recipe).result hive = (.ok hive.tree.nextCell, hive.spawned recipe) := by
  obtain ⟨above, habove⟩ := Option.isSome_iff_exists.mp hknown
  have hchildren := RegionTree.children_of_cell? habove
  have hindex : hive.indexFor recipe = recipe.index.getD above.children.length := by
    rw [Hive.indexFor, hchildren]
  have hsmall : ¬ above.children.length < recipe.index.getD above.children.length := by
    rw [← hindex, ← hchildren]
    exact Nat.not_lt.mpr hroom
  have hcreated : (createCell recipe.recipes).result hive =
      (.ok hive.tree.nextCell, hive.adopt (hive.tree.addCell recipe.recipes false)) := rfl
  have hattached := result_attach hforest hknown hroom
  have hcontained := contains_planted hforest hknown hroom
  rw [spawn, result_bind result_get]
  rw [← Hive.parentFor, result_bind (result_requireCell habove)]
  dsimp only
  rw [result_bind (result_refuseIf hsmall), result_bind hcreated, result_bind hattached,
    Hive.spawned]
  generalize hive.planted recipe = planted at hcontained ⊢
  have hstored : ∀ components, (addEntity components).result (hive.adopt planted) =
      (.ok (hive.entities.add components).1,
        { hive.adopt planted with entities := (hive.entities.add components).2 }) := fun _ => rfl
  rw [result_bind (hstored _)]
  generalize hive.entities.add (.cell hive.tree.nextCell :: recipe.components) = row
  have hnamed : (planted.setEntity hive.tree.nextCell row.1).contains hive.tree.nextCell = true :=
    (planted.contains_editCell _ _ _).trans hcontained
  rw [result_bind (result_setEntity hcontained row.1), result_bind (result_register hnamed)]
  rfl

end Room

/-- Taken step by step, a spawn stops before its first change or not at all. -/
theorem result_spawn (hforest : hive.tree.Forest) (recipe : RegionRecipe) :
    (spawn recipe).result hive = whole hive (hive.spawn recipe) := by
  by_cases hknown : hive.tree.contains (hive.parentFor recipe) = true
  · by_cases hroom : hive.indexFor recipe ≤
        (hive.tree.children (hive.parentFor recipe)).length
    · rw [result_spawn_of_room hforest hknown hroom, Hive.spawn_of_room hknown hroom, whole]
    · obtain ⟨above, habove⟩ := Option.isSome_iff_exists.mp hknown
      have hchildren := RegionTree.children_of_cell? habove
      have hbeyond := Nat.lt_of_not_le hroom
      rw [Hive.spawn_of_beyond hknown hbeyond, whole]
      rw [Hive.indexFor, hchildren] at hbeyond ⊢
      rw [spawn, result_bind result_get, ← Hive.parentFor,
        result_bind (result_requireCell habove)]
      dsimp only
      rw [result_bind_error (result_refuseIf_error hbeyond)]
  · have hnone := Option.not_isSome_iff_eq_none.mp hknown
    rw [Hive.spawn_of_unknown hknown, whole, spawn, result_bind result_get, ← Hive.parentFor,
      result_bind_error (result_onTree_error (Stepwise.result_requireCell_none hnone)),
      hive.adopt_of_journal rfl]

end Spawn

end HiveSteps

namespace Hive

/-- After any moves, a region is not spawned exactly if its parent does not exist or has no room
where it is asked for; otherwise it is spawned whole. Taken step by step, a spawn comes to the same:
it is completed, or refused when the hive and its lengths are still as they were. -/
theorem spawn_all_or_nothing (config : HiveConfig) (moves : List Move) (recipe : RegionRecipe) :
    (∀ failure, (reached config moves).spawn recipe = .error failure ↔
        FirstOf ((reached config moves).spawnRefusals recipe) failure) ∧
      (∀ cell after, (reached config moves).spawn recipe = .ok (cell, after) →
        Spawns (reached config moves) after recipe cell) ∧
      (HiveSteps.spawn recipe).result (reached config moves) =
        HiveSteps.whole (reached config moves) ((reached config moves).spawn recipe) :=
  ⟨fun _ => spawn_eq_error_iff, fun _ _ => spawns_of_spawn (forest_reached config moves),
    HiveSteps.result_spawn (forest_reached config moves) recipe⟩

/-- A region that has a child already. -/
def settlement : List Move :=
  [.act (.edit (.make "zero" (.constant 0.0))), .act (.edit (.make "ten" (.constant 10.0))),
    .act (.newRegion ⟨some ("zero", "ten"), some ("zero", "ten"), none, none, []⟩),
    .act (.newRegion ⟨some ("zero", "ten"), some ("zero", "ten"), some ⟨1⟩, none, []⟩)]

/-- A region for the settlement. -/
def settler (index : Nat) : RegionRecipe :=
  ⟨⟨⟨4⟩, ⟨5⟩, ⟨4⟩, ⟨5⟩⟩, some ⟨1⟩, some index, [.flag true]⟩

/-- It may come before the child, but not a place after the last. -/
theorem settlement_spawns :
    (∃ after, (reached .standard settlement).spawn (settler 0) = .ok (⟨3⟩, after) ∧
        after.tree.children ⟨1⟩ = [⟨3⟩, ⟨2⟩] ∧
        Spawns (reached .standard settlement) after (settler 0) ⟨3⟩) ∧
      (reached .standard settlement).spawn (settler 2) = .error (.indexOutOfBounds ⟨1⟩ 2 1) := by
  constructor
  · have hchildren : ((reached .standard settlement).spawn (settler 0)).toOption.map
        (fun result => (result.1, result.2.tree.children ⟨1⟩)) = some (⟨3⟩, [⟨3⟩, ⟨2⟩]) := by
      decide +kernel
    cases hspawn : (reached .standard settlement).spawn (settler 0) with
    | error failure =>
        rw [hspawn] at hchildren
        contradiction
    | ok result =>
        obtain ⟨cell, after⟩ := result
        rw [hspawn] at hchildren
        obtain ⟨rfl, hlist⟩ := Prod.mk.inj (Option.some.inj hchildren)
        exact ⟨after, rfl, hlist,
          (spawn_all_or_nothing .standard settlement (settler 0)).2.1 _ _ hspawn⟩
  · refine ((spawn_all_or_nothing .standard settlement (settler 2)).1 _).mpr ?_
    exact .later (by decide +kernel) (.here (by decide +kernel))

end Hive

end RegionLayout
