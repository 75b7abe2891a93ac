import RegionLayout.Proofs.Tree.Values
import RegionLayout.Proofs.Tree.Wiring

/-!
New cells and new recipes. Their coordinates listen from the start, so they hear whatever happens to
their recipes while these are bound.
-/

namespace RegionLayout

def Recipes.lengths (recipes : Recipes) : List LengthId :=
  [recipes.xAlpha, recipes.xBeta, recipes.yAlpha, recipes.yBeta]

theorem Cell.recipe_of (recipes : Recipes) (pinned : Bool) (axis : Axis) (edge : Edge) :
    ((Cell.of recipes pinned).coordinate axis edge).recipe ∈ recipes.lengths := by
  cases axis <;> cases edge <;>
    simp [Recipes.lengths, Cell.of, Cell.coordinate, Cell.boundary, Boundary.edge, Coordinate.of]

theorem CellId.mem_zip_coordinates (id : CellId) (cell : Cell) (axis : Axis) (edge : Edge) :
    (id.coordinate axis edge, cell.coordinate axis edge) ∈ id.coordinates.zip cell.coordinates := by
  cases axis <;> cases edge <;>
    simp [CellId.coordinates, Cell.coordinates, Cell.coordinate, Cell.boundary, Boundary.edge]

theorem CellId.of_mem_zip_coordinates {id : CellId} {cell : Cell} {owner : CoordinateId}
    {coordinate : Coordinate} (hmem : (owner, coordinate) ∈ id.coordinates.zip cell.coordinates) :
    owner.cell = id ∧ cell.coordinate owner.axis owner.edge = coordinate := by
  simp only [CellId.coordinates, Cell.coordinates, List.zip_cons_cons, List.zip_nil_right,
    List.mem_cons, Prod.mk.injEq, List.not_mem_nil, or_false] at hmem
  rcases hmem with ⟨rfl, rfl⟩ | ⟨rfl, rfl⟩ | ⟨rfl, rfl⟩ | ⟨rfl, rfl⟩ <;> exact ⟨rfl, rfl⟩

namespace RegionTree

variable {tree after : RegionTree}

/-! Listening. -/

/-- Some coordinates listen to their recipes; nothing else changed. -/
structure Listens (before after : RegionTree) (pairs : List (CoordinateId × Coordinate)) :
    Prop where
  cells : after.cells = before.cells
  names : after.names = before.names
  enlists : Network.Enlists before.network after.network
  enrolled : ∀ pair ∈ pairs, ∀ channel,
    .recipeOf pair.1 pair.2.wiring ∈ after.network.listeners channel pair.2.recipe
  listed : ∀ channel id owner wiring, .recipeOf owner wiring ∈ after.network.listeners channel id →
    .recipeOf owner wiring ∈ before.network.listeners channel id ∨
      ∃ coordinate, (owner, coordinate) ∈ pairs ∧ wiring = coordinate.wiring ∧
        coordinate.recipe = id

def listenAll (tree : RegionTree) (pairs : List (CoordinateId × Coordinate)) : RegionTree :=
  pairs.foldl (fun tree (owner, coordinate) => tree.listenTo owner coordinate) tree

theorem listens_listenAll (tree : RegionTree) (hbuilt : tree.network.BuiltIn)
    {pairs : List (CoordinateId × Coordinate)}
    (hlt : ∀ pair ∈ pairs, pair.2.recipe.index < tree.network.lengths.size) :
    Listens tree (tree.listenAll pairs) pairs := by
  induction pairs generalizing tree with
  | nil => exact ⟨rfl, rfl, .refl _, by simp, fun _ _ _ _ => .inl⟩
  | cons pair rest ih =>
      obtain ⟨owner, coordinate⟩ := pair
      obtain ⟨hfirst, hrest⟩ := List.forall_mem_cons.mp hlt
      have henlists := Network.enlists_subscribeBoth hbuilt hfirst owner coordinate.wiring
      have hlater := ih (tree.listenTo owner coordinate) (henlists.builtIn hbuilt)
        (fun pair hpair => henlists.size ▸ hrest pair hpair)
      have hlisteners := Network.listeners_subscribeBoth hbuilt hfirst
        (.recipeOf owner coordinate.wiring)
      refine ⟨hlater.cells, hlater.names, henlists.trans hlater.enlists,
        fun pair hpair channel => ?_, fun channel id other wiring hmem => ?_⟩
      · rcases List.mem_cons.mp hpair with rfl | hpair
        · refine hlater.enlists.kept channel _ ?_
          show _ ∈ (tree.network.subscribeBoth _ _).listeners channel _
          rw [hlisteners, if_pos rfl]
          exact List.mem_append_right _ (List.mem_singleton_self _)
        · exact hlater.enrolled pair hpair channel
      · rcases hlater.listed channel id other wiring hmem with hmem | ⟨later, hpair, hsame⟩
        · have hmem : _ ∈ (tree.network.subscribeBoth _ _).listeners channel id := hmem
          rw [hlisteners] at hmem
          split at hmem
          next heq =>
            refine (List.mem_append.mp hmem).imp_right fun hnew => ?_
            obtain ⟨rfl, rfl⟩ := Listener.recipeOf.inj (List.mem_singleton.mp hnew)
            exact ⟨coordinate, List.mem_cons_self, rfl, heq.symm⟩
          next => exact .inl hmem
        · exact .inr ⟨later, List.mem_cons_of_mem _ hpair, hsame⟩

theorem sound_of_enlists {audience : Audience} (hsound : tree.network.Sound audience)
    (henlists : Network.Enlists tree.network after.network)
    (hheld : ∀ root ∈ after.roots, audience.includes (.operandOf root) = true)
    (henrolled : ∀ owner coordinate, after.coordinate? owner = some coordinate → ∀ channel,
      .recipeOf owner coordinate.wiring ∈ after.network.listeners channel coordinate.recipe)
    (haddressed : ∀ channel id owner wiring,
      .recipeOf owner wiring ∈ after.network.listeners channel id → after.Addresses owner wiring id)
    (hnodup : ∀ id, (after.children id).Nodup)
    (hlt : ∀ id, ∀ child ∈ after.children id, child.index < after.size) : after.Sound := by
  obtain ⟨hnetwork, hroots⟩ := network_sound_of_held after (henlists.sound hsound) hheld
  exact ⟨hnetwork, hroots, henrolled, haddressed, hnodup, hlt⟩

/-! New cells. -/

/-- A tree with one cell more, whose coordinates do not listen yet. -/
def withCell (tree : RegionTree) (cell : Cell) : RegionTree :=
  { tree with cells := tree.cells.push cell }

def newCoordinates (tree : RegionTree) (cell : Cell) : List (CoordinateId × Coordinate) :=
  tree.nextCell.coordinates.zip cell.coordinates

theorem addCell_eq (tree : RegionTree) (recipes : Recipes) (pinned : Bool) :
    tree.addCell recipes pinned = ((tree.withCell (.of recipes pinned)).listenAll
      (tree.newCoordinates (.of recipes pinned))).rebind [tree.nextCell] := rfl

theorem cells_addCell (tree : RegionTree) (recipes : Recipes) (pinned : Bool) :
    (tree.addCell recipes pinned).cells = tree.cells.push (.of recipes pinned) := by
  have hlistens : ∀ (pairs : List (CoordinateId × Coordinate)) (state : RegionTree),
      (state.listenAll pairs).cells = state.cells := by
    intro pairs state
    refine foldl_related (r := fun first second : RegionTree => second.cells = first.cells)
      (fun _ => rfl) (fun hfirst hsecond => hsecond.trans hfirst) (fun _ _ _ => ?_) state
    rfl
  rw [addCell_eq, cells_rebind, hlistens]
  rfl

section Push

variable (tree) (cell : Cell)

theorem cell?_withCell (id : CellId) : (tree.withCell cell).cell? id =
    if id = tree.nextCell then some cell else tree.cell? id := by
  obtain ⟨index⟩ := id
  simp only [cell?, withCell, Array.getElem?_push, nextCell, size, CellId.mk.injEq]

theorem coordinate?_withCell (id : CoordinateId) : (tree.withCell cell).coordinate? id =
    if id.cell = tree.nextCell then some (cell.coordinate id.axis id.edge)
    else tree.coordinate? id := by
  rw [coordinate?, cell?_withCell, coordinate?]
  split <;> rfl

theorem children_withCell (id : CellId) : (tree.withCell cell).children id =
    if id = tree.nextCell then cell.children else tree.children id := by
  rw [children, cell?_withCell, children]
  split <;> rfl

theorem coordinate?_nextCell (axis : Axis) (edge : Edge) :
    tree.coordinate? (tree.nextCell.coordinate axis edge) = none := by
  simp [coordinate?, cell?, nextCell, size, CellId.coordinate]

end Push

/-- Lengths that can be taken into use, as all can that are in use already. -/
def Usable (tree : RegionTree) (ids : List LengthId) : Prop :=
  ∃ audience : Audience, tree.network.Sound audience ∧
    (∀ root ∈ tree.roots, audience.includes (.operandOf root) = true) ∧
      ∀ id ∈ ids, audience.includes (.operandOf id) = true

theorem Sound.usable (hsound : tree.Sound) {ids : List LengthId}
    (hheld : ∀ id ∈ ids, tree.audience.includes (.operandOf id) = true) : tree.Usable ids :=
  ⟨tree.audience, hsound.network, fun _ => hsound.includes_root, hheld⟩

section Newcomer

variable {recipes : Recipes} {pinned : Bool}
  (hlistens : Listens (tree.withCell (.of recipes pinned)) after
    (tree.newCoordinates (.of recipes pinned)))

include hlistens

theorem Listens.coordinate?_newcomer (id : CoordinateId) : after.coordinate? id =
    if id.cell = tree.nextCell then some ((Cell.of recipes pinned).coordinate id.axis id.edge)
    else tree.coordinate? id := by
  rw [coordinate?, cell?, hlistens.cells]
  exact coordinate?_withCell tree (Cell.of recipes pinned) id

theorem Listens.children_newcomer (id : CellId) : after.children id =
    if id = tree.nextCell then [] else tree.children id := by
  rw [children, cell?, hlistens.cells]
  exact children_withCell tree (Cell.of recipes pinned) id

theorem Listens.coordinate?_older {id : CoordinateId} {old : Coordinate}
    (hold : tree.coordinate? id = some old) : after.coordinate? id = some old := by
  have hne : id.cell ≠ tree.nextCell := by
    intro heq
    have hnone := coordinate?_nextCell tree id.axis id.edge
    rw [← heq] at hnone
    exact Option.some_ne_none old (hold.symm.trans hnone)
  rw [hlistens.coordinate?_newcomer, if_neg hne, hold]

theorem Listens.relative_newcomer (id : CoordinateId) : after.relative id = tree.relative id := by
  rw [relative, relative, hlistens.coordinate?_newcomer]
  split
  next heq =>
    have hnone := coordinate?_nextCell tree id.axis id.edge
    rw [← heq] at hnone
    rw [show tree.coordinate? id = none from hnone]
    cases id.axis <;> cases id.edge <;> rfl
  next => rfl

theorem Listens.held_newcomer {holds : LengthId → Prop}
    (hroots : ∀ root ∈ tree.roots, holds root) (hused : ∀ id ∈ recipes.lengths, holds id)
    {root : LengthId} (hroot : root ∈ after.roots) : holds root := by
  rcases mem_roots_iff.mp hroot with ⟨name, hname⟩ | ⟨owner, coordinate, hfound, rfl⟩
  · rw [hlistens.names] at hname
    exact hroots root (mem_roots_iff.mpr (.inl ⟨name, hname⟩))
  · rw [hlistens.coordinate?_newcomer] at hfound
    split at hfound
    next =>
      rw [← Option.some.inj hfound]
      exact hused _ (Cell.recipe_of recipes pinned owner.axis owner.edge)
    next => exact hroots _ (mem_roots_iff.mpr (.inr ⟨owner, coordinate, hfound, rfl⟩))

theorem Listens.enrolled_newcomer (hsound : tree.Sound) {owner : CoordinateId}
    {coordinate : Coordinate} (hfound : after.coordinate? owner = some coordinate)
    (channel : Channel) :
    .recipeOf owner coordinate.wiring ∈ after.network.listeners channel coordinate.recipe := by
  rw [hlistens.coordinate?_newcomer] at hfound
  split at hfound
  next heq =>
    rw [← Option.some.inj hfound]
    have hpair : (owner, (Cell.of recipes pinned).coordinate owner.axis owner.edge) ∈
        tree.newCoordinates (.of recipes pinned) := by
      rw [newCoordinates, ← heq]
      exact CellId.mem_zip_coordinates owner.cell _ owner.axis owner.edge
    exact hlistens.enrolled _ hpair channel
  next => exact hlistens.enlists.kept channel _ (hsound.enrolled owner coordinate hfound channel)

theorem Listens.addressed_newcomer (hsound : tree.Sound) {channel : Channel} {id : LengthId}
    {owner : CoordinateId} {wiring : Nat}
    (hmem : .recipeOf owner wiring ∈ after.network.listeners channel id) :
    after.Addresses owner wiring id := by
  rcases hlistens.listed channel id owner wiring hmem with hold | ⟨coordinate, hpair, hsame⟩
  · obtain ⟨coordinate, hfound, hplace⟩ := hsound.addressed channel id owner wiring hold
    exact ⟨coordinate, hlistens.coordinate?_older hfound, hplace⟩
  · obtain ⟨hcell, rfl⟩ := CellId.of_mem_zip_coordinates hpair
    exact ⟨_, (hlistens.coordinate?_newcomer owner).trans (if_pos hcell), .inr hsame⟩

theorem Listens.sound_newcomer (hsound : tree.Sound) {audience : Audience}
    (hnetwork : tree.network.Sound audience)
    (hroots : ∀ root ∈ tree.roots, audience.includes (.operandOf root) = true)
    (hused : ∀ id ∈ recipes.lengths, audience.includes (.operandOf id) = true) : after.Sound := by
  have hsize : after.size = tree.size + 1 := by
    rw [size, hlistens.cells, withCell, Array.size_push, size]
  refine sound_of_enlists hnetwork hlistens.enlists
    (fun root hroot => hlistens.held_newcomer hroots hused hroot)
    (fun _ _ hfound channel => hlistens.enrolled_newcomer hsound hfound channel)
    (fun _ _ _ _ hmem => hlistens.addressed_newcomer hsound hmem)
    (fun id => ?_) fun id child hchild => ?_
  · rw [hlistens.children_newcomer]
    split
    · exact List.nodup_nil
    · exact hsound.children_nodup id
  · rw [hlistens.children_newcomer] at hchild
    split at hchild
    · contradiction
    · exact hsize ▸ (hsound.children_lt id child hchild).trans (Nat.lt_succ_self _)

end Newcomer

theorem edits_listenAll {recipes : Recipes} {pinned : Bool}
    (husable : tree.Sound → tree.Usable recipes.lengths) :
    Edits tree ((tree.withCell (.of recipes pinned)).listenAll
      (tree.newCoordinates (.of recipes pinned))) := by
  intro hsound
  obtain ⟨audience, hnetwork, hroots, hused⟩ := husable hsound
  have hlt : ∀ pair ∈ tree.newCoordinates (.of recipes pinned),
      pair.2.recipe.index < tree.network.lengths.size := by
    intro pair hpair
    obtain ⟨axis, edge, hcoordinate⟩ := Cell.mem_coordinates.mp (List.of_mem_zip hpair).2
    rw [← hcoordinate]
    exact hnetwork.laid.bounded _ (hused _ (Cell.recipe_of recipes pinned axis edge))
  have hlistens := listens_listenAll (tree.withCell (.of recipes pinned))
    hsound.network.laid.builtIn hlt
  refine ⟨⟨⟨?_, hlistens.enlists.unfolds, fun id old hold => ?_⟩, hlistens.relative_newcomer⟩,
    hlistens.sound_newcomer hsound hnetwork hroots hused⟩
  · rw [Network.Recorded, hlistens.enlists.journal]
    exact List.prefix_rfl
  · exact ⟨old, hlistens.coordinate?_older hold,
      .of_same hsound rfl (fun id _ => hlistens.enlists.formula id) hold⟩

theorem edits_storeTares (ids : List CoordinateId) (tare : Option Float) (tree : RegionTree) :
    Edits tree (ids.foldl (fun tree id => (tree.storeTare id tare).2) tree) :=
  foldl_related (r := Edits) .refl .trans
    (fun state id _ => (retares_storeTare state id tare).edits) tree

section AddCell

variable {recipes : Recipes} (husable : tree.Sound → tree.Usable recipes.lengths)

include husable

theorem edits_addCell (pinned : Bool) : Edits tree (tree.addCell recipes pinned) := by
  rw [addCell_eq]
  exact (edits_listenAll husable).trans (edits_rebind _ [tree.nextCell])

theorem edits_createCell : Edits tree (tree.createCell recipes).2 :=
  edits_addCell husable false

theorem edits_createRoot : Edits tree (tree.createRoot recipes).2 := by
  have hadded := edits_addCell husable true
  unfold createRoot
  generalize tree.addCell recipes true = added at hadded ⊢
  exact hadded.trans (edits_storeTares _ _ added)

end AddCell

/-! Another recipe for a coordinate. -/

/-- A coordinate with its next recipe, to which it listens and which is not bound yet. -/
def reassign (tree : RegionTree) (id : CoordinateId) (coordinate : Coordinate)
    (recipe : LengthId) : RegionTree :=
  let fresh := { coordinate with recipe, wiring := coordinate.wiring + 1 }
  (tree.listenTo id fresh).setCoordinate id fresh

section Reassign

variable {id : CoordinateId} {coordinate : Coordinate} (recipe : LengthId)
  (hcoordinate : tree.coordinate? id = some coordinate)

include hcoordinate

theorem coordinate?_reassign (other : CoordinateId) :
    (tree.reassign id coordinate recipe).coordinate? other =
      if other = id then some { coordinate with recipe, wiring := coordinate.wiring + 1 }
      else tree.coordinate? other := by
  have hlistens : ∀ other, (tree.listenTo id { coordinate with
      recipe, wiring := coordinate.wiring + 1 }).coordinate? other = tree.coordinate? other :=
    fun _ => rfl
  rw [reassign, coordinate?_setCoordinate, hlistens]
  split
  next heq =>
    rw [heq, hcoordinate]
    rfl
  next => rfl

theorem held_reassign {holds : LengthId → Prop} (hroots : ∀ root ∈ tree.roots, holds root)
    (hheld : holds recipe) {root : LengthId}
    (hroot : root ∈ (tree.reassign id coordinate recipe).roots) : holds root := by
  rcases mem_roots_iff.mp hroot with ⟨name, hname⟩ | ⟨owner, other, hother, rfl⟩
  · exact hroots root (mem_roots_iff.mpr (.inl ⟨name, hname⟩))
  · rw [coordinate?_reassign recipe hcoordinate] at hother
    split at hother
    next =>
      rw [← Option.some.inj hother]
      exact hheld
    next => exact hroots _ (mem_roots_iff.mpr (.inr ⟨owner, other, hother, rfl⟩))

/-- A wiring that some roster still lists was in use before, or still is. -/
theorem Sound.addresses_reassign (hsound : tree.Sound) {channel : Channel} {length : LengthId}
    {owner : CoordinateId} {wiring : Nat}
    (hmem : .recipeOf owner wiring ∈ tree.network.listeners channel length) :
    (tree.reassign id coordinate recipe).Addresses owner wiring length := by
  obtain ⟨old, hfound, hplace⟩ := hsound.addressed channel length owner wiring hmem
  rw [Addresses, coordinate?_reassign recipe hcoordinate]
  split
  next heq =>
    rw [heq, hcoordinate] at hfound
    obtain rfl := Option.some.inj hfound
    refine ⟨_, rfl, .inl (Nat.lt_succ_of_le ?_)⟩
    exact hplace.elim Nat.le_of_lt fun hpresent => Nat.le_of_eq hpresent.1
  next => exact ⟨old, hfound, hplace⟩

section Listeners

variable (hsound : tree.Sound) (hlt : recipe.index < tree.network.lengths.size)

include hsound hlt

omit hcoordinate in
theorem listeners_reassign (channel : Channel) (length : LengthId) :
    (tree.reassign id coordinate recipe).network.listeners channel length =
      if length = recipe then
        tree.network.listeners channel length ++ [.recipeOf id (coordinate.wiring + 1)]
      else tree.network.listeners channel length :=
  Network.listeners_subscribeBoth hsound.network.laid.builtIn hlt _ channel length

theorem enrolled_reassign {owner : CoordinateId} {other : Coordinate}
    (hother : (tree.reassign id coordinate recipe).coordinate? owner = some other)
    (channel : Channel) : .recipeOf owner other.wiring ∈
      (tree.reassign id coordinate recipe).network.listeners channel other.recipe := by
  rw [coordinate?_reassign recipe hcoordinate] at hother
  rw [listeners_reassign recipe hsound hlt]
  split at hother
  next heq =>
    rw [← Option.some.inj hother, heq, if_pos rfl]
    exact List.mem_append_right _ (List.mem_singleton_self _)
  next =>
    have hold := hsound.enrolled owner other hother channel
    split
    · exact List.mem_append_left _ hold
    · exact hold

theorem addressed_reassign {channel : Channel} {length : LengthId} {owner : CoordinateId}
    {wiring : Nat} (hmem : .recipeOf owner wiring ∈
      (tree.reassign id coordinate recipe).network.listeners channel length) :
    (tree.reassign id coordinate recipe).Addresses owner wiring length := by
  rw [listeners_reassign recipe hsound hlt] at hmem
  split at hmem
  next heq =>
    rcases List.mem_append.mp hmem with hold | hnew
    · exact hsound.addresses_reassign recipe hcoordinate hold
    · obtain ⟨rfl, rfl⟩ := Listener.recipeOf.inj (List.mem_singleton.mp hnew)
      rw [Addresses, coordinate?_reassign recipe hcoordinate, if_pos rfl]
      exact ⟨_, rfl, .inr ⟨rfl, heq.symm⟩⟩
  next => exact hsound.addresses_reassign recipe hcoordinate hmem

end Listeners

theorem sound_reassign (hsound : tree.Sound)
    (hheld : tree.audience.includes (.operandOf recipe) = true) :
    (tree.reassign id coordinate recipe).Sound := by
  have hlt := hsound.network.laid.bounded recipe hheld
  have henlists : Network.Enlists tree.network (tree.reassign id coordinate recipe).network :=
    Network.enlists_subscribeBoth hsound.network.laid.builtIn hlt id (coordinate.wiring + 1)
  have hchildren : ∀ cell, (tree.reassign id coordinate recipe).children cell =
      tree.children cell := fun cell => children_setCoordinate _ id _ cell
  have hsize : (tree.reassign id coordinate recipe).size = tree.size := by
    simp [reassign, size, setCoordinate, editCell, listenTo, mapNetwork]
  refine sound_of_enlists hsound.network henlists
    (fun _ hroot => held_reassign recipe hcoordinate (fun _ => hsound.includes_root) hheld hroot)
    (fun _ _ hother channel => enrolled_reassign recipe hcoordinate hsound hlt hother channel)
    (fun _ _ _ _ hmem => addressed_reassign recipe hcoordinate hsound hlt hmem)
    (fun cell => ?_) (fun cell => ?_)
  · rw [hchildren]
    exact hsound.children_nodup cell
  · rw [hchildren, hsize]
    exact hsound.children_lt cell

theorem relative_reassign (other : CoordinateId) :
    (tree.reassign id coordinate recipe).relative other = tree.relative other := by
  rw [relative, coordinate?_reassign recipe hcoordinate, relative]
  split
  next heq =>
    rw [heq, hcoordinate]
    rfl
  next => rfl

omit hcoordinate in
theorem formula?_reassign (other : LengthId) :
    (tree.reassign id coordinate recipe).network.formula? other = tree.network.formula? other :=
  Network.formula?_subscribeBoth tree.network recipe other _

omit hcoordinate in
theorem unfolds_reassign :
    Network.Unfolds tree.network (tree.reassign id coordinate recipe).network := by
  have hhushed : Network.Hushed tree.network (tree.reassign id coordinate recipe).network :=
    .of_journal rfl
  exact (hhushed.aside (formula?_reassign recipe)).unfolds

/-- The other coordinates notice nothing. -/
theorem tellsAt_reassign (hsound : tree.Sound) {other : CoordinateId} {old : Coordinate}
    (hne : other ≠ id) (hold : tree.coordinate? other = some old) :
    (tree.reassign id coordinate recipe).coordinate? other = some old ∧
      TellsAt tree (tree.reassign id coordinate recipe) other old old := by
  refine ⟨?_, .of_same hsound rfl (fun length _ => formula?_reassign recipe length) hold⟩
  rw [coordinate?_reassign recipe hcoordinate, if_neg hne, hold]

end Reassign

theorem announced_send (tree : RegionTree) {channel : Channel} {id : CoordinateId}
    {message : Message} (htells : (Notice.sent message).tells channel id = true) :
    Network.Announced tree.network (tree.send message).network channel id :=
  Network.announced_note_iff.mpr htells

def announceRecipe (tree : RegionTree) (id : CoordinateId) (change : PrerequisiteChange) :
    RegionTree :=
  (if change.isEmpty then tree else tree.send (.prerequisites id change)).send (.invalidated id)

theorem setRecipe_eq {id : CoordinateId} {coordinate : Coordinate}
    (hcoordinate : tree.coordinate? id = some coordinate) (recipe : LengthId) :
    tree.setRecipe id recipe =
      .ok (((tree.reassign id coordinate recipe).bindLength id recipe).announceRecipe id
        (.between (tree.network.prerequisites coordinate.recipe)
          (((tree.reassign id coordinate recipe).bindLength id recipe).network.prerequisites
            recipe))) := by
  unfold setRecipe
  rw [hcoordinate]
  rfl

theorem exists_of_setRecipe {id : CoordinateId} {recipe : LengthId}
    (hset : tree.setRecipe id recipe = .ok after) :
    ∃ old, tree.coordinate? id = some old ∧
      after = ((tree.reassign id old recipe).bindLength id recipe).announceRecipe id
        (.between (tree.network.prerequisites old.recipe)
          (((tree.reassign id old recipe).bindLength id recipe).network.prerequisites recipe)) := by
  cases hold : tree.coordinate? id with
  | none =>
      rw [setRecipe, hold] at hset
      contradiction
  | some old =>
      rw [setRecipe_eq hold recipe] at hset
      exact ⟨old, rfl, (Except.ok.inj hset).symm⟩

theorem announceRecipe_spec (tree : RegionTree) (id : CoordinateId) (change : PrerequisiteChange) :
    Retares tree (tree.announceRecipe id change) ∧
      Network.Announced tree.network (tree.announceRecipe id change).network .invalidated id ∧
      (change.isEmpty = true ∨
        Network.Announced tree.network (tree.announceRecipe id change).network
          .prerequisites id) := by
  have hsend : ∀ (tree : RegionTree) message, (Notice.sent message).rewiresLength = false →
      Retares tree (tree.send message) := fun tree _ hsilent => retares_note tree hsilent
  have hlast : ∀ tree : RegionTree, Network.Announced tree.network
      (tree.send (.invalidated id)).network .invalidated id :=
    fun tree => announced_send tree (by simp [Notice.tells])
  unfold announceRecipe
  split
  next hempty => exact ⟨hsend tree (.invalidated id) rfl, hlast tree, .inl hempty⟩
  next =>
    have hfirst := hsend tree (.prerequisites id change) rfl
    have hsecond := hsend (tree.send (.prerequisites id change)) (.invalidated id) rfl
    refine ⟨hfirst.trans hsecond, (hlast _).extend hfirst.recorded hsecond.recorded (.refl _),
      .inr ?_⟩
    exact (announced_send tree (by simp [Notice.tells])).extend (.refl _) hfirst.recorded
      hsecond.recorded

/-- A coordinate whose recipe was replaced and bound announces that it may come to something
else, and that it reads something else if it does. -/
theorem exists_tellsAt_announceRecipe {bound : RegionTree} (hsound : tree.Sound)
    (hbound : bound.Sound) (hrecorded : Network.Recorded tree.network bound.network)
    {id : CoordinateId} {old fresh : Coordinate} (hfresh : bound.coordinate? id = some fresh)
    {change : PrerequisiteChange}
    (hchange : change = .between (tree.network.prerequisites old.recipe)
      (bound.network.prerequisites fresh.recipe)) :
    ∃ new, (bound.announceRecipe id change).coordinate? id = some new ∧
      TellsAt tree (bound.announceRecipe id change) id old new := by
  obtain ⟨hsends, hinvalidated, hprerequisites⟩ := announceRecipe_spec bound id change
  obtain ⟨new, hnew, hrecipe, _⟩ := hsends.exists_coordinate hfresh
  refine ⟨new, hnew, .inr (hinvalidated.extend hrecorded hsends.recorded (.refl _)), ?_⟩
  rcases hprerequisites with hempty | hannounced
  · refine .inl fun prerequisite => ?_
    rw [hchange] at hempty
    rw [hrecipe, Network.reads, hsends.formula?, ← Network.reads,
      ← hbound.network.laid.builtIn.prerequisites, ← hsound.network.laid.builtIn.prerequisites]
    exact (PrerequisiteChange.isEmpty_between_iff.mp hempty prerequisite).symm
  · exact .inr (hannounced.extend hrecorded hsends.recorded (.refl _))

theorem edits_setRecipe {id : CoordinateId} {recipe : LengthId}
    (hheld : tree.Sound → tree.audience.includes (.operandOf recipe) = true)
    (hset : tree.setRecipe id recipe = .ok after) : Edits tree after := by
  intro hsound
  obtain ⟨coordinate, hcoordinate, rfl⟩ := exists_of_setRecipe hset
  have hassigned := sound_reassign recipe hcoordinate hsound (hheld hsound)
  have hrecorded : Network.Recorded tree.network
    (tree.reassign id coordinate recipe).network := .refl tree.network
  obtain ⟨hbinds, hbound⟩ := edits_bindLength _ id recipe hassigned
  have hsends := (announceRecipe_spec ((tree.reassign id coordinate recipe).bindLength id
    recipe) id (.between (tree.network.prerequisites coordinate.recipe)
      (((tree.reassign id coordinate recipe).bindLength id recipe).network.prerequisites
        recipe))).1
  obtain ⟨htells, hafter⟩ := (Edits.trans (fun _ => ⟨hbinds, hbound⟩) hsends.edits) hassigned
  refine ⟨⟨⟨hrecorded.trans htells.recorded, (unfolds_reassign recipe).trans htells.unfolds,
    fun other old hold => ?_⟩, fun other =>
      (htells.relative other).trans (relative_reassign recipe hcoordinate other)⟩, hafter⟩
  by_cases heq : other = id
  · subst heq
    obtain rfl := Option.some.inj (hcoordinate.symm.trans hold)
    have hassign := coordinate?_reassign recipe hcoordinate other
    rw [if_pos rfl] at hassign
    exact exists_tellsAt_announceRecipe hsound hbound (hrecorded.trans hbinds.recorded)
      hassign rfl
  · obtain ⟨hkept, hfirst⟩ := tellsAt_reassign recipe hcoordinate hsound heq hold
    obtain ⟨new, hnew, hsecond⟩ := htells.told other old hkept
    exact ⟨new, hnew, hfirst.trans hrecorded htells.recorded hsecond⟩

end RegionTree

end RegionLayout
