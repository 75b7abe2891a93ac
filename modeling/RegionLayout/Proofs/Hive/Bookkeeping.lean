import RegionLayout.Proofs.Graph.Reachability
import RegionLayout.Proofs.Hive.Session

/-!
What a hive keeps track of. Between passes the edges into a registered coordinate are what its
recipe reads, unless the coordinate waits to be rewired; and whatever a registered coordinate
announces is taken up as work.
-/

namespace RegionLayout

/-! Work that is heard. -/

namespace Backlog

variable {registered : CoordinateId → Bool} {pending : Backlog} {coordinate : CoordinateId}

/-- The work that announcements on a channel make. -/
def work (pending : Backlog) : Channel → CoordinateSet
  | .invalidated => pending.invalidated
  | .prerequisites => pending.rewired

theorem mem_work_hear {channel : Channel} (notice : Notice) :
    coordinate ∈ (pending.hear registered notice).work channel ↔
      coordinate ∈ pending.work channel ∨
        registered coordinate = true ∧ notice.tells channel coordinate = true := by
  unfold hear
  split
  next other =>
    by_cases heq : other = coordinate
    · subst heq
      cases channel <;> cases registered other <;>
        simp [work, Notice.tells, or_comm]
    · cases channel <;> split <;> simp [work, Notice.tells, heq, Ne.symm heq]
  next other change =>
    by_cases heq : other = coordinate
    · subst heq
      cases channel <;> cases registered other <;>
        simp [work, Notice.tells, or_comm]
    · cases channel <;> split <;> simp [work, Notice.tells, heq, Ne.symm heq]
  next hinvalidated hprerequisites =>
    refine ⟨.inl, fun hmem => hmem.resolve_right fun htells => ?_⟩
    cases notice with
    | sent message =>
        cases message with
        | invalidated other => exact hinvalidated other rfl
        | prerequisites other change => exact hprerequisites other change rfl
        | _ => simp [Notice.tells] at htells
    | _ => simp [Notice.tells] at htells

theorem fresh_hear (notice : Notice) : (pending.hear registered notice).fresh = pending.fresh := by
  unfold hear
  split
  · split <;> rfl
  · split <;> rfl
  · rfl

theorem mem_work_foldl_hear {channel : Channel} {news : List Notice} :
    coordinate ∈ (news.foldl (hear registered) pending).work channel ↔
      coordinate ∈ pending.work channel ∨ registered coordinate = true ∧
        ∃ notice ∈ news, notice.tells channel coordinate = true := by
  rw [foldl_iff (fun pending => coordinate ∈ pending.work channel)
    (fun notice => registered coordinate = true ∧ notice.tells channel coordinate = true)
    (fun _ => mem_work_hear) news pending]
  simp [and_left_comm]

theorem fresh_foldl_hear {news : List Notice} :
    (news.foldl (hear registered) pending).fresh = pending.fresh := by
  induction news generalizing pending with
  | nil => rfl
  | cons first rest ih => rw [List.foldl_cons, ih, fresh_hear]

end Backlog

theorem RegionTree.mem_prerequisites_iff {tree : RegionTree} (hbuilt : tree.network.BuiltIn)
    {id : CoordinateId} {coordinate : Coordinate}
    (hcoordinate : tree.coordinate? id = some coordinate)
    {prerequisite : CoordinateId} :
    prerequisite ∈ tree.prerequisites id ↔ prerequisite ∈ tree.network.reads coordinate.recipe := by
  rw [prerequisites, hcoordinate, Option.map_some, Option.getD_some, hbuilt.prerequisites]

namespace Hive

structure Sound (hive : Hive) : Prop where
  tree : hive.tree.Sound
  graph : hive.graph.Sound
  nodup : hive.registry.Nodup
  known : ∀ id ∈ hive.registry, ∃ coordinate, hive.tree.coordinate? id = some coordinate
  fresh : ∀ id, id ∈ hive.pending.fresh → id ∈ hive.registry
  invalidated : ∀ id, id ∈ hive.pending.invalidated → id ∈ hive.registry
  rewired : ∀ id, id ∈ hive.pending.rewired → id ∈ hive.registry
  dependents : ∀ prerequisite id, hive.graph.Edge prerequisite id → id ∈ hive.registry
  nodes : ∀ id ∈ hive.registry, id ∉ hive.pending.fresh → hive.graph.Has id
  /-- Nothing to rewire: the edges are what the recipe reads. -/
  wired : ∀ id ∈ hive.registry, id ∉ hive.pending.fresh → id ∉ hive.pending.rewired →
    ∀ prerequisite, hive.graph.Edge prerequisite id ↔ prerequisite ∈ hive.tree.prerequisites id

/-- What any action but a pass does: the tree tells, and the hive hears and registers. -/
structure Advances (before after : Hive) (created : List CoordinateId) : Prop where
  keeps : RegionTree.Keeps before.tree after.tree
  graph : after.graph = before.graph
  config : after.config = before.config
  registry : after.registry = before.registry ++ created
  nodup : created.Nodup
  new : ∀ id ∈ created, before.tree.coordinate? id = none ∧
    ∃ coordinate, after.tree.coordinate? id = some coordinate
  fresh : ∀ id, id ∈ after.pending.fresh ↔ id ∈ before.pending.fresh ∨ id ∈ created
  invalidated : ∀ id, id ∈ after.pending.invalidated ↔ id ∈ before.pending.invalidated ∨
    id ∈ before.registry ∧
      Network.Announced before.tree.network after.tree.network .invalidated id
  rewired : ∀ id, id ∈ after.pending.rewired ↔ id ∈ before.pending.rewired ∨
    id ∈ before.registry ∧
      Network.Announced before.tree.network after.tree.network .prerequisites id

section Advances

variable {before after : Hive} {created : List CoordinateId}

theorem Advances.refl (hive : Hive) : Advances hive hive [] where
  keeps := .refl hive.tree
  graph := rfl
  config := rfl
  registry := (List.append_nil _).symm
  nodup := List.nodup_nil
  new := by simp
  fresh := by simp
  invalidated id := by simp [Network.not_announced_self]
  rewired id := by simp [Network.not_announced_self]

theorem mem_work_adopt (hive : Hive) (tree : RegionTree) (channel : Channel) {id : CoordinateId} :
    id ∈ (hive.adopt tree).pending.work channel ↔ id ∈ hive.pending.work channel ∨
      id ∈ hive.registry ∧ Network.Announced hive.tree.network tree.network channel id := by
  rw [adopt, Backlog.mem_work_foldl_hear, isRegistered, List.contains_iff_mem]
  rfl

theorem advances_adopt (hive : Hive) {tree : RegionTree}
    (hkeeps : RegionTree.Keeps hive.tree tree) :
    Advances hive (hive.adopt tree) [] where
  keeps := hkeeps
  graph := rfl
  config := rfl
  registry := (List.append_nil _).symm
  nodup := List.nodup_nil
  new := by simp
  fresh id := by simp [adopt, Backlog.fresh_foldl_hear]
  invalidated _ := hive.mem_work_adopt tree .invalidated
  rewired _ := hive.mem_work_adopt tree .prerequisites

theorem Advances.mem_registry (hadvances : Advances before after created) {id : CoordinateId}
    (hid : id ∈ before.registry) : id ∈ after.registry :=
  hadvances.registry ▸ List.mem_append_left created hid

theorem Advances.registered_before (hadvances : Advances before after created) {id : CoordinateId}
    (hid : id ∈ after.registry) (hfresh : id ∉ after.pending.fresh) :
    id ∈ before.registry ∧ id ∉ before.pending.fresh := by
  rw [hadvances.fresh, not_or] at hfresh
  rw [hadvances.registry, List.mem_append] at hid
  exact ⟨hid.resolve_right hfresh.2, hfresh.1⟩

theorem Advances.nodup_registry (hadvances : Advances before after created)
    (hsound : before.Sound) : after.registry.Nodup := by
  rw [hadvances.registry]
  refine hsound.nodup.append hadvances.nodup fun id hold hnew => ?_
  obtain ⟨coordinate, hcoordinate⟩ := hsound.known id hold
  rw [(hadvances.new id hnew).1] at hcoordinate
  contradiction

/-- A coordinate that has nothing to rewire was not told to, and reads what it read. -/
theorem Advances.mem_prerequisites_iff (hadvances : Advances before after created)
    (hsound : before.Sound) {id : CoordinateId} (hid : id ∈ before.registry)
    (hrewired : id ∉ after.pending.rewired) (prerequisite : CoordinateId) :
    prerequisite ∈ after.tree.prerequisites id ↔ prerequisite ∈ before.tree.prerequisites id := by
  obtain ⟨hnotifies, htree⟩ := hadvances.keeps hsound.tree
  rw [hadvances.rewired, not_or] at hrewired
  obtain ⟨old, hold⟩ := hsound.known id hid
  obtain ⟨new, hnew, htells⟩ := hnotifies.told id old hold
  have hsame := htells.reads.resolve_right fun htold => hrewired.2 ⟨hid, htold⟩
  rw [RegionTree.mem_prerequisites_iff hsound.tree.network.laid.builtIn hold,
    RegionTree.mem_prerequisites_iff htree.network.laid.builtIn hnew]
  exact hsame prerequisite

theorem Sound.advances (hsound : before.Sound) (hadvances : Advances before after created) :
    after.Sound where
  tree := (hadvances.keeps hsound.tree).2
  graph := hadvances.graph ▸ hsound.graph
  nodup := hadvances.nodup_registry hsound
  known id hid := by
    rw [hadvances.registry, List.mem_append] at hid
    rcases hid with hold | hnew
    · obtain ⟨coordinate, hcoordinate⟩ := hsound.known id hold
      obtain ⟨new, hnew, _⟩ := (hadvances.keeps hsound.tree).1.told id coordinate hcoordinate
      exact ⟨new, hnew⟩
    · exact (hadvances.new id hnew).2
  fresh id hid := by
    rcases (hadvances.fresh id).mp hid with hold | hnew
    · exact hadvances.mem_registry (hsound.fresh id hold)
    · exact hadvances.registry ▸ List.mem_append_right before.registry hnew
  invalidated id hid := by
    rcases (hadvances.invalidated id).mp hid with hold | ⟨hold, _⟩
    · exact hadvances.mem_registry (hsound.invalidated id hold)
    · exact hadvances.mem_registry hold
  rewired id hid := by
    rcases (hadvances.rewired id).mp hid with hold | ⟨hold, _⟩
    · exact hadvances.mem_registry (hsound.rewired id hold)
    · exact hadvances.mem_registry hold
  dependents prerequisite id hedge := by
    rw [hadvances.graph] at hedge
    exact hadvances.mem_registry (hsound.dependents prerequisite id hedge)
  nodes id hid hfresh := by
    obtain ⟨hid, hfresh⟩ := hadvances.registered_before hid hfresh
    exact hadvances.graph ▸ hsound.nodes id hid hfresh
  wired id hid hfresh hrewired prerequisite := by
    obtain ⟨hid, hfresh⟩ := hadvances.registered_before hid hfresh
    have hquiet : id ∉ before.pending.rewired := fun hold =>
      hrewired ((hadvances.rewired id).mpr (.inl hold))
    rw [hadvances.graph, hadvances.mem_prerequisites_iff hsound hid hrewired]
    exact hsound.wired id hid hfresh hquiet prerequisite

end Advances

/-! Actions. -/

section Actions

variable {hive after : Hive}

theorem advances_edit {change : RegionTree → RegionTree}
    (hkeeps : RegionTree.Keeps hive.tree (change hive.tree)) :
    Advances hive (hive.edit change) [] :=
  advances_adopt hive hkeeps

theorem advances_setViewport (hive : Hive) (width height : Float) :
    Advances hive (hive.setViewport width height) [] :=
  advances_edit ((RegionTree.edits_setConstant hive.tree hive.width width).trans
    (RegionTree.edits_setConstant _ hive.height height)).keeps

theorem advances_calculate (hive : Hive) (id : CoordinateId) :
    Advances hive (hive.edit fun tree => (tree.calculate id).2) [] :=
  advances_edit (RegionTree.keeps_calculate hive.tree id)

theorem edits_place_created {tree : RegionTree} (hsound : tree.Sound) (recipes : Recipes)
    (parent : CellId) (index : Nat) :
    RegionTree.Edits (tree.createCell recipes).2
      ((tree.createCell recipes).2.place parent tree.nextCell index) := by
  have hcells := tree.cells_addCell recipes false
  refine RegionTree.edits_place ?_ ?_ index
  · have hchildren : (tree.addCell recipes false).children parent =
        (tree.withCell (.of recipes false)).children parent := by
      rw [RegionTree.children, RegionTree.cell?, hcells, RegionTree.children, RegionTree.cell?]
      rfl
    show tree.nextCell ∉ (tree.addCell recipes false).children parent
    rw [hchildren, RegionTree.children_withCell]
    split
    · exact List.not_mem_nil
    · exact fun hmem => Nat.lt_irrefl _ (hsound.children_lt parent tree.nextCell hmem)
  · show tree.cells.size < (tree.addCell recipes false).cells.size
    rw [hcells, Array.size_push]
    exact Nat.lt_succ_self _

theorem exists_coordinate_addCell (tree : RegionTree) (recipes : Recipes) (pinned : Bool)
    {id : CoordinateId} (hid : id ∈ tree.nextCell.coordinates) :
    ∃ coordinate, (tree.addCell recipes pinned).coordinate? id = some coordinate := by
  have hcell := CellId.mem_coordinates.mp hid
  refine ⟨(Cell.of recipes pinned).coordinate id.axis id.edge, ?_⟩
  rw [RegionTree.coordinate?, RegionTree.cell?, tree.cells_addCell]
  exact (tree.coordinate?_withCell _ id).trans (if_pos hcell)

theorem advances_register (hive : Hive) (placed tree : RegionTree) (cell : CellId)
    (entities : Entities) (event : TraceEvent) (hplaced : RegionTree.Keeps hive.tree placed)
    (hkeeps : RegionTree.Keeps hive.tree tree) (hnetwork : tree.network = placed.network)
    (hnew : ∀ id ∈ cell.coordinates, hive.tree.coordinate? id = none ∧
      ∃ coordinate, tree.coordinate? id = some coordinate) :
    Advances hive (({ hive.adopt placed with tree, entities }.register cell).follow event)
      cell.coordinates := by
  have hadopts := advances_adopt hive hplaced
  refine ⟨hkeeps, rfl, rfl, rfl, ?_, hnew, fun id => ?_, fun id => ?_, fun id => ?_⟩
  · simp [CellId.coordinates, CellId.coordinate]
  · refine CoordinateSet.mem_foldl_insert.trans ?_
    rw [hadopts.fresh]
    simp only [List.not_mem_nil, or_false]
  · refine (hadopts.invalidated id).trans ?_
    show _ ↔ _ ∨ _ ∧ Network.Announced hive.tree.network tree.network .invalidated id
    rw [hnetwork]
    exact Iff.rfl
  · refine (hadopts.rewired id).trans ?_
    show _ ↔ _ ∨ _ ∧ Network.Announced hive.tree.network tree.network .prerequisites id
    rw [hnetwork]
    exact Iff.rfl

theorem advances_spawn {recipe : RegionRecipe} {cell : CellId} (hsound : hive.Sound)
    (husable : hive.tree.Usable recipe.recipes.lengths)
    (hspawn : hive.spawn recipe = .ok (cell, after)) :
    Advances hive after hive.tree.nextCell.coordinates ∧
      RegionTree.Edits hive.tree after.tree := by
  unfold spawn at hspawn
  dsimp only at hspawn
  split at hspawn
  next => contradiction
  next above _ =>
    split at hspawn
    next => contradiction
    next =>
      obtain ⟨-, rfl⟩ := Prod.mk.inj (Except.ok.inj hspawn)
      generalize recipe.parent.getD hive.root = parent
      generalize recipe.index.getD above.children.length = index
      -- The cell is created, placed and named; its coordinates are new in the first of these edits.
      have hcreated : RegionTree.Edits hive.tree (hive.tree.createCell recipe.recipes).2 :=
        RegionTree.edits_createCell fun _ => husable
      have hexists : ∀ id ∈ hive.tree.nextCell.coordinates, ∃ coordinate,
          (hive.tree.createCell recipe.recipes).2.coordinate? id = some coordinate :=
        fun _ => exists_coordinate_addCell hive.tree recipe.recipes false
      have hplaced := edits_place_created hsound.tree recipe.recipes parent index
      have hcell : (hive.tree.createCell recipe.recipes).1 = hive.tree.nextCell := rfl
      rw [hcell]
      generalize (hive.tree.createCell recipe.recipes).2 = created at hcreated hexists hplaced ⊢
      generalize created.place parent hive.tree.nextCell index = placed at hplaced ⊢
      have hadopted : (hive.adopt placed).tree = placed := rfl
      have hentities : (hive.adopt placed).entities = hive.entities := rfl
      rw [hadopted, hentities]
      generalize hive.entities.add (.cell hive.tree.nextCell :: recipe.components) = named
      have hnamed := RegionTree.edits_setEntity placed hive.tree.nextCell named.1
      have hsame : (placed.setEntity hive.tree.nextCell named.1).network = placed.network := rfl
      generalize placed.setEntity hive.tree.nextCell named.1 = tree at hnamed hsame ⊢
      have hedits := hcreated.trans (hplaced.trans hnamed)
      refine ⟨advances_register hive placed tree hive.tree.nextCell named.2 _
        (hcreated.trans hplaced).keeps hedits.keeps hsame fun id hid => ⟨?_, ?_⟩, hedits⟩
      · have hnone := hive.tree.coordinate?_nextCell id.axis id.edge
        rwa [← CellId.mem_coordinates.mp hid] at hnone
      · obtain ⟨old, hold⟩ := hexists id hid
        obtain ⟨htells, _⟩ := hplaced.trans hnamed (hcreated hsound.tree).2
        obtain ⟨new, hnew, _⟩ := htells.told id old hold
        exact ⟨new, hnew⟩

theorem recipes_of_finish {builder : CellBuilder} {recipe : RegionRecipe}
    (hfinish : builder.finish = .ok recipe) : ∃ x y, builder.x = some x ∧ builder.y = some y ∧
      recipe.recipes = ⟨x.1, x.2, y.1, y.2⟩ := by
  unfold CellBuilder.finish at hfinish
  split at hfinish
  next => contradiction
  next => contradiction
  next xAlpha xBeta yAlpha yBeta hx hy =>
    exact ⟨(xAlpha, xBeta), (yAlpha, yBeta), hx, hy, by rw [← Except.ok.inj hfinish]⟩

theorem named_of_boundary? {named : String → Option LengthId} {names : Option (String × String)}
    {boundary : Option (LengthId × LengthId)} {ids : LengthId × LengthId}
    (hboundary : RegionPlan.boundary? named names = some boundary) (hids : boundary = some ids) :
    (∃ name, named name = some ids.1) ∧ ∃ name, named name = some ids.2 := by
  cases names with
  | none =>
      rw [← Option.some.inj hboundary] at hids
      contradiction
  | some names =>
      simp only [RegionPlan.boundary?] at hboundary
      split at hboundary
      next alpha beta halpha hbeta =>
        rw [← Option.some.inj hboundary] at hids
        rw [← Option.some.inj hids]
        exact ⟨⟨_, halpha⟩, _, hbeta⟩
      next => contradiction

theorem named_of_builder? {plan : RegionPlan} {named : String → Option LengthId}
    {builder : CellBuilder} (hbuilder : plan.builder? named = some builder) {recipe : RegionRecipe}
    (hfinish : builder.finish = .ok recipe) {id : LengthId} (hid : id ∈ recipe.recipes.lengths) :
    ∃ name, named name = some id := by
  obtain ⟨x, y, hx, hy, hrecipes⟩ := recipes_of_finish hfinish
  unfold RegionPlan.builder? at hbuilder
  split at hbuilder
  next first second hfirst hsecond =>
    rw [← Option.some.inj hbuilder] at hx hy
    obtain ⟨hxAlpha, hxBeta⟩ := named_of_boundary? hfirst hx
    obtain ⟨hyAlpha, hyBeta⟩ := named_of_boundary? hsecond hy
    rw [hrecipes] at hid
    simp only [Recipes.lengths, List.mem_cons, List.not_mem_nil, or_false] at hid
    rcases hid with rfl | rfl | rfl | rfl
    · exact hxAlpha
    · exact hxBeta
    · exact hyAlpha
    · exact hyBeta
  next => contradiction

/-- What a spawn leaves behind, whether or not it succeeds. -/
theorem advances_attempt (recipe : RegionRecipe) (hsound : hive.Sound)
    (hnamed : ∀ id ∈ recipe.recipes.lengths, ∃ name, hive.tree.named? name = some id) :
    ∃ created, Advances hive (hive.attempt (hive.spawn recipe)) created ∧
      RegionTree.Edits hive.tree (hive.attempt (hive.spawn recipe)).tree := by
  cases hspawn : hive.spawn recipe with
  | error failure => exact ⟨[], .refl hive, .refl hive.tree⟩
  | ok result => exact ⟨_, advances_spawn hsound (hsound.tree.usable_named hnamed) hspawn⟩

end Actions

end Hive

def Action.isLayout : Action → Bool
  | .layout => true
  | _ => false

def Action.isCalculate : Action → Bool
  | .calculate _ => true
  | _ => false

namespace Hive

variable {hive : Hive}

theorem advances_perform (hsound : hive.Sound) {action : Action}
    (hlayout : action.isLayout = false) : ∃ created, Advances hive (hive.perform action) created ∧
      (action.isCalculate = false → RegionTree.Edits hive.tree (hive.perform action).tree) := by
  cases action with
  | edit edit =>
      have hedits := RegionTree.edits_apply hive.tree edit
      exact ⟨[], advances_adopt hive hedits.keeps, fun _ => hedits⟩
  | calculate id => exact ⟨[], advances_calculate hive id, nofun⟩
  | spawn names parent index components =>
      simp only [perform]
      split
      next recipes hrecipes =>
        obtain ⟨created, hadvances, hedits⟩ := advances_attempt ⟨recipes, parent, index, components⟩
          hsound fun id hid => RecipeNames.named_of_recipes? hrecipes hid
        exact ⟨created, hadvances, fun _ => hedits⟩
      next => exact ⟨[], .refl hive, fun _ => .refl hive.tree⟩
  | newRegion plan =>
      simp only [perform]
      split
      next builder hbuilder =>
        unfold newRegion
        split
        next => exact ⟨[], .refl hive, fun _ => .refl hive.tree⟩
        next recipe hfinish =>
          obtain ⟨created, hadvances, hedits⟩ := advances_attempt recipe hsound fun id hid =>
            named_of_builder? hbuilder hfinish hid
          exact ⟨created, hadvances, fun _ => hedits⟩
      next => exact ⟨[], .refl hive, fun _ => .refl hive.tree⟩
  | setViewport width height =>
      exact ⟨[], advances_setViewport hive width height, fun _ =>
        (RegionTree.edits_setConstant hive.tree hive.width width).trans
          (RegionTree.edits_setConstant _ hive.height height)⟩
  | layout => contradiction

/-! The start of every session. -/

/-- The tree that holds the lengths of a viewport and no cell yet. -/
def viewportLengths (config : HiveConfig) : RegionTree :=
  ((((RegionTree.empty.addLength (.constant 0.0)).2.addLength
    (.constant config.viewportWidth)).2.addLength (.constant 0.0)).2.addLength
      (.constant config.viewportHeight)).2

def viewportRecipes : Recipes :=
  ⟨⟨0⟩, ⟨1⟩, ⟨2⟩, ⟨3⟩⟩

theorem constants_viewportLengths (config : HiveConfig) :
    ∀ length ∈ (viewportLengths config).network.lengths,
      (∃ value, length.formula = .constant value) ∧
      length.invalidatedRoster = [] ∧ length.prerequisitesRoster = [] := by
  intro length hlength
  have hlengths : (viewportLengths config).network.lengths = #[⟨.constant 0.0, [], []⟩,
    ⟨.constant config.viewportWidth, [], []⟩, ⟨.constant 0.0, [], []⟩,
    ⟨.constant config.viewportHeight, [], []⟩] := rfl
  rw [hlengths] at hlength
  simp only [List.mem_toArray, List.mem_cons, List.not_mem_nil, or_false] at hlength
  rcases hlength with rfl | rfl | rfl | rfl <;> exact ⟨⟨_, rfl⟩, rfl, rfl⟩

theorem sound_viewportLengths_network (config : HiveConfig) {audience : Audience}
    (hbounded : ∀ id, audience.includes (.operandOf id) = true → id.index < 4) :
    (viewportLengths config).network.Sound audience :=
  Network.sound_of_constants (constants_viewportLengths config) hbounded

theorem coordinate?_viewportLengths (config : HiveConfig) (id : CoordinateId) :
    (viewportLengths config).coordinate? id = none :=
  rfl

theorem sound_viewportLengths (config : HiveConfig) : (viewportLengths config).Sound := by
  have hchildren : ∀ id, (viewportLengths config).children id = [] := fun _ => rfl
  refine ⟨sound_viewportLengths_network config fun id hincluded => ?_,
    fun root hroot => absurd hroot List.not_mem_nil, fun owner coordinate hcoordinate => ?_,
    fun channel id owner wiring hmem => ?_, fun id => ?_, fun id => ?_⟩
  · have hsize : (viewportLengths config).network.lengths.size = 4 := rfl
    exact hsize ▸ RegionTree.lt_of_includes_operandOf hincluded
  · rw [coordinate?_viewportLengths] at hcoordinate
    contradiction
  · rw [Network.listeners_eq_nil fun length hlength =>
      (constants_viewportLengths config length hlength).2] at hmem
    contradiction
  · rw [hchildren]
    exact List.nodup_nil
  · rw [hchildren]
    exact fun child hchild => absurd hchild List.not_mem_nil

theorem usable_viewportRecipes (config : HiveConfig) :
    (viewportLengths config).Usable viewportRecipes.lengths := by
  refine ⟨⟨Array.replicate 4 true, #[], []⟩,
    sound_viewportLengths_network config fun id hincluded => ?_,
    fun root hroot => absurd hroot List.not_mem_nil, ?_⟩
  · have hmarked : Graph.Marked (Array.replicate 4 true) id.index := hincluded
    exact hmarked.lt
  · decide

/-- A hive that has the lengths of its viewport, but no root yet. -/
def rootless (config : HiveConfig) : Hive where
  tree := viewportLengths config
  root := ⟨0⟩
  width := ⟨1⟩
  height := ⟨3⟩
  registry := []
  graph := .empty
  pending := .empty
  entities := .empty
  config
  stats := .zero
  trace := #[]

theorem sound_rootless (config : HiveConfig) : (rootless config).Sound where
  tree := sound_viewportLengths config
  graph := .empty
  nodup := List.nodup_nil
  known _ hid := absurd hid List.not_mem_nil
  fresh _ hid := absurd hid CoordinateSet.not_mem_empty
  invalidated _ hid := absurd hid CoordinateSet.not_mem_empty
  rewired _ hid := absurd hid CoordinateSet.not_mem_empty
  dependents _ _ hedge := by
    obtain ⟨_, _, ⟨_, hslot, _⟩, _⟩ := hedge
    simp [rootless, Graph.empty, Graph.slot?] at hslot
  nodes _ hid := absurd hid List.not_mem_nil
  wired _ hid := absurd hid List.not_mem_nil

/-- The tree of a new hive. -/
def viewportTree (config : HiveConfig) : RegionTree :=
  ((viewportLengths config).createRoot viewportRecipes).2.setName ⟨0⟩ (some "root")

theorem ofConfig_eq (config : HiveConfig) : ofConfig config =
    { rootless config with
      tree := viewportTree config
      registry := (CellId.mk 0).coordinates
      pending := { Backlog.empty with
        fresh := (CellId.mk 0).coordinates.foldl (fun fresh id => fresh.insert id) .empty } } := rfl

theorem advances_enroot (config : HiveConfig) {tree : RegionTree}
    (hkeeps : RegionTree.Keeps (viewportLengths config) tree)
    (hknown : ∀ id ∈ (CellId.mk 0).coordinates, ∃ coordinate,
      tree.coordinate? id = some coordinate) :
    Advances (rootless config)
      { rootless config with
        tree
        registry := (CellId.mk 0).coordinates
        pending := { Backlog.empty with
          fresh := (CellId.mk 0).coordinates.foldl (fun fresh id => fresh.insert id) .empty } }
      (CellId.mk 0).coordinates where
  keeps := hkeeps
  graph := rfl
  config := rfl
  registry := rfl
  nodup := by simp [CellId.coordinates, CellId.coordinate]
  new id hid := ⟨coordinate?_viewportLengths config id, hknown id hid⟩
  fresh _ := CoordinateSet.mem_foldl_insert
  invalidated _ := by simp [rootless]
  rewired _ := by simp [rootless]

theorem edits_viewportTree (config : HiveConfig) :
    RegionTree.Edits ((viewportLengths config).addCell viewportRecipes true)
      (viewportTree config) := by
  unfold viewportTree RegionTree.createRoot
  dsimp only
  generalize (viewportLengths config).addCell viewportRecipes true = added
  generalize CellId.coordinates (viewportLengths config).nextCell = ids
  exact (RegionTree.edits_storeTares ids _ added).trans (RegionTree.edits_setName _ ⟨0⟩ _)

theorem advances_ofConfig (config : HiveConfig) :
    Advances (rootless config) (ofConfig config) (CellId.mk 0).coordinates := by
  have hadded := RegionTree.edits_addCell (fun _ => usable_viewportRecipes config) true
  have hedits := edits_viewportTree config
  rw [ofConfig_eq]
  refine advances_enroot config (hadded.trans hedits).keeps fun id hid => ?_
  obtain ⟨old, hold⟩ := exists_coordinate_addCell (viewportLengths config) viewportRecipes true hid
  obtain ⟨htells, _⟩ := hedits (hadded (sound_viewportLengths config)).2
  obtain ⟨new, hnew, _⟩ := htells.told id old hold
  exact ⟨new, hnew⟩

theorem sound_ofConfig (config : HiveConfig) : (ofConfig config).Sound :=
  (sound_rootless config).advances (advances_ofConfig config)

end Hive

end RegionLayout
