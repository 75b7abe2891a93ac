import RegionLayout.Proofs.Length.Deltas
import RegionLayout.Proofs.Tree.Unions

/-!
Changes of prerequisites add up in a tree. Whatever is done to a tree, who keeps a set of what a
coordinate's recipe read and revises it with each change that the coordinate announces has the set
of what its recipe reads now, whether the recipe was bound anew or replaced.
-/

namespace RegionLayout

theorem Notice.delta?_of_isOnValue {owner : CoordinateId} {notice : Notice}
    (hvalue : notice.isOnValue = true) : notice.delta? owner = none := by
  unfold isOnValue at hvalue
  split at hvalue
  all_goals first | rfl | contradiction

namespace RegionTree

open CoordinateSet

/-- A set that follows what a coordinate announces stays the set of what its recipe reads. -/
structure Accounts (owner : CoordinateId) (before after : RegionTree) : Prop where
  recorded : Network.Recorded before.network after.network
  followed : (ofList (before.prerequisites owner)).reviseAll
      (Network.deltas before.network after.network owner) = ofList (after.prerequisites owner)

/-- A change of a tree after which every coordinate that was there has accounted for its recipe. -/
structure Declares (owner : CoordinateId) (before after : RegionTree) : Prop where
  keeps : Keeps before after
  accounts : before.Sound → ∀ old, before.coordinate? owner = some old →
    Accounts owner before after

/-- The owner keeps its recipe, announces nothing, and its recipe reads what it read. -/
def Ignores (owner : CoordinateId) (before after : RegionTree) : Prop :=
  ∀ old, before.coordinate? owner = some old → ∃ new, after.coordinate? owner = some new ∧
    new.recipe = old.recipe ∧ Network.Bypasses owner old.recipe before.network after.network

section Compose

variable {owner : CoordinateId} {before middle after tree : RegionTree}

theorem prerequisites_eq (hsound : tree.Sound) {coordinate : Coordinate}
    (hcoordinate : tree.coordinate? owner = some coordinate) :
    tree.prerequisites owner = tree.network.reads coordinate.recipe := by
  rw [prerequisites, hcoordinate, Option.map_some, Option.getD_some,
    hsound.network.laid.builtIn.prerequisites]

/-- A coordinate listens to its recipe with its present wiring, and to nothing else. -/
theorem Sound.attends (hsound : tree.Sound) {coordinate : Coordinate}
    (hcoordinate : tree.coordinate? owner = some coordinate) :
    Network.Attends owner coordinate.recipe tree.audience tree.network where
  listens := ⟨coordinate.wiring, includes_recipeOf_iff.mpr ⟨coordinate, hcoordinate, rfl⟩,
    hsound.enrolled owner coordinate hcoordinate .prerequisites⟩
  only id wiring hlistens hincluded := by
    obtain ⟨present, hpresent, rfl⟩ := includes_recipeOf_iff.mp hincluded
    obtain rfl := Option.some.inj (hcoordinate.symm.trans hpresent)
    obtain ⟨same, hsame, hplace⟩ := hsound.addressed .prerequisites id owner _ hlistens
    obtain rfl := Option.some.inj (hcoordinate.symm.trans hsame)
    rcases hplace with hpast | ⟨_, hrecipe⟩
    · exact absurd hpast (Nat.lt_irrefl _)
    · exact hrecipe.symm

theorem Accounts.refl (tree : RegionTree) : Accounts owner tree tree where
  recorded := .refl tree.network
  followed := by
    rw [Network.deltas_of_journal rfl]
    rfl

theorem Accounts.trans (hfirst : Accounts owner before middle)
    (hsecond : Accounts owner middle after) : Accounts owner before after where
  recorded := hfirst.recorded.trans hsecond.recorded
  followed := by
    rw [Network.deltas_trans hfirst.recorded hsecond.recorded, reviseAll_append, hfirst.followed,
      hsecond.followed]

theorem Accounts.of_tracks (hsound : before.Sound) (hafter : after.Sound) {old new : Coordinate}
    (hold : before.coordinate? owner = some old) (hnew : after.coordinate? owner = some new)
    (hrecipe : new.recipe = old.recipe)
    (htracks : Network.Tracks owner old.recipe before.network after.network) :
    Accounts owner before after where
  recorded := htracks.recorded
  followed := by
    rw [prerequisites_eq hsound hold, prerequisites_eq hafter hnew, hrecipe]
    exact htracks.followed

namespace Declares

theorem refl (tree : RegionTree) : Declares owner tree tree :=
  ⟨.refl tree, fun _ _ _ => .refl tree⟩

theorem trans (hfirst : Declares owner before middle) (hsecond : Declares owner middle after) :
    Declares owner before after where
  keeps := hfirst.keeps.trans hsecond.keeps
  accounts hsound old hold := by
    obtain ⟨hnotifies, hmiddle⟩ := hfirst.keeps hsound
    obtain ⟨new, hnew, _⟩ := hnotifies.told owner old hold
    exact (hfirst.accounts hsound old hold).trans (hsecond.accounts hmiddle new hnew)

theorem of_ignores (hkeeps : Keeps before after)
    (hignores : before.Sound → Ignores owner before after) : Declares owner before after where
  keeps := hkeeps
  accounts hsound old hold := by
    obtain ⟨new, hnew, hrecipe, hbypasses⟩ := hignores hsound old hold
    exact .of_tracks hsound (hkeeps hsound).2 hold hnew hrecipe hbypasses.tracks

/-- Lengths shifted, and everything else is as it was. -/
theorem of_shifts (hkeeps : Keeps before after) (hcells : after.cells = before.cells)
    (hshifts : before.Sound →
      Network.Shifts before.audience before.network after.network) :
    Declares owner before after where
  keeps := hkeeps
  accounts hsound old hold := by
    have hnew : after.coordinate? owner = some old := by rw [coordinate?_congr hcells, hold]
    exact .of_tracks hsound (hkeeps hsound).2 hold hnew rfl
      ((hshifts hsound).tracks hsound.network (hsound.attends hold))

end Declares

namespace Ignores

theorem refl (tree : RegionTree) : Ignores owner tree tree :=
  fun old hold => ⟨old, hold, rfl, .refl tree.network⟩

theorem trans (hfirst : Ignores owner before middle) (hsecond : Ignores owner middle after) :
    Ignores owner before after := by
  intro old hold
  obtain ⟨new, hnew, hrecipe, hbypasses⟩ := hfirst old hold
  obtain ⟨newer, hnewer, hrecipe', hbypasses'⟩ := hsecond new hnew
  exact ⟨newer, hnewer, hrecipe'.trans hrecipe, hbypasses.trans (hrecipe ▸ hbypasses')⟩

/-- The network is the same, and coordinates have the recipes that they had. -/
theorem of_steady (hsteady : Steady before after) (hnetwork : after.network = before.network) :
    Ignores owner before after := by
  intro old hold
  obtain ⟨new, hnew, hrecipe, _⟩ := hsteady.exists_coordinate hold
  refine ⟨new, hnew, hrecipe, ?_⟩
  rw [hnetwork]
  exact .refl before.network

end Ignores

end Compose

section Steps

variable (owner : CoordinateId) {tree after : RegionTree}

/-! What does not concern a coordinate's recipe. -/

theorem ignores_note (tree : RegionTree) {notice : Notice} (hother : notice.delta? owner = none) :
    Ignores owner tree (tree.note notice) :=
  fun old hold => ⟨old, hold, rfl, .note tree.network hother⟩

theorem revaluing_ignores : Revaluing (Ignores owner) where
  refl := .refl
  trans := .trans
  note tree _ hvalue := ignores_note owner tree (Notice.delta?_of_isOnValue hvalue)
  retare tree id old tare absolute hold :=
    .of_steady (revaluing_revalues.retare tree id old tare absolute hold).toSteady rfl
  revalue tree id old relative absolute hold :=
    .of_steady (revaluing_revalues.revalue tree id old relative absolute hold).toSteady rfl

theorem ignores_send (tree : RegionTree) {message : Message}
    (hother : (Notice.sent message).delta? owner = none) : Ignores owner tree (tree.send message) :=
  ignores_note owner tree hother

theorem relinking_ignores : Relinking (Ignores owner) where
  toStoring := (revaluing_ignores owner).storing
  setParent tree id _ := .of_steady (steady_editCell id (fun _ axis _ => by cases axis <;> rfl)
    (fun _ axis _ => by cases axis <;> rfl) tree) rfl
  setChildren tree id _ := .of_steady (steady_editCell id (fun _ axis _ => by cases axis <;> rfl)
    (fun _ axis _ => by cases axis <;> rfl) tree) rfl
  tellParent tree _ _ _ := ignores_send owner tree rfl
  tellChildren tree _ := ignores_send owner tree rfl

theorem ignores_listenAll (tree : RegionTree) (cell : Cell) :
    Ignores owner tree ((tree.withCell cell).listenAll (tree.newCoordinates cell)) := by
  have hcell : Ignores owner tree (tree.withCell cell) := by
    intro old hold
    refine ⟨old, ?_, rfl, .refl tree.network⟩
    rw [coordinate?_withCell, if_neg, hold]
    intro hnext
    obtain ⟨_, axis, edge⟩ := owner
    obtain rfl : _ = tree.nextCell := hnext
    rw [show (⟨tree.nextCell, axis, edge⟩ : CoordinateId) =
      tree.nextCell.coordinate axis edge from rfl, coordinate?_nextCell] at hold
    contradiction
  refine hcell.trans (foldl_related .refl .trans (fun state entry _ => ?_) _)
  intro old hold
  exact ⟨old, hold, rfl, .of_journal rfl (Network.formula?_subscribeBoth _ _ old.recipe _)⟩

/-! What binds. -/

theorem declares_rebind (tree : RegionTree) (ids : List CellId) :
    Declares owner tree (tree.rebind ids) :=
  .of_shifts (edits_rebind tree ids).keeps (cells_rebind tree ids)
    fun hsound => shifts_rebind hsound.children_nodup ids

theorem declares_bindLength (tree : RegionTree) (of : CoordinateId) (id : LengthId) :
    Declares owner tree (tree.bindLength of id) :=
  .of_shifts (edits_bindLength tree of id).keeps rfl
    fun hsound => Network.shifts_bind (hsound.children_nodup of.cell) id tree.network

theorem declares_insert {parent child : CellId} {index : Nat}
    (hinsert : tree.insert parent child index = .ok after) : Declares owner tree after := by
  obtain ⟨hplaceable, rfl⟩ := insert_eq_ok hinsert
  obtain ⟨hnew, hlt⟩ := placeable_spec hplaceable
  rw [place_eq]
  exact (Declares.of_ignores (edits_relocated hnew hlt index).keeps fun _ =>
    (relinking_ignores owner).relocated tree parent child index).trans (declares_rebind owner _ _)

theorem declares_remove {parent child : CellId} (hremove : tree.remove parent child = .ok after) :
    Declares owner tree after := by
  rw [remove_eq_ok hremove]
  exact (Declares.of_ignores (edits_loosened tree parent child).keeps fun _ =>
    (relinking_ignores owner).loosened tree parent child).trans (declares_rebind owner _ _)

theorem declares_addCell {recipes : Recipes} (pinned : Bool)
    (husable : tree.Sound → tree.Usable recipes.lengths) :
    Declares owner tree (tree.addCell recipes pinned) := by
  rw [addCell_eq]
  exact (Declares.of_ignores (edits_listenAll husable).keeps fun _ =>
    ignores_listenAll owner tree (.of recipes pinned)).trans (declares_rebind owner _ _)

theorem declares_createRoot {recipes : Recipes}
    (husable : tree.Sound → tree.Usable recipes.lengths) :
    Declares owner tree (tree.createRoot recipes).2 := by
  have hadded := declares_addCell owner true husable
  unfold createRoot
  generalize tree.addCell recipes true = added at hadded ⊢
  exact hadded.trans (.of_ignores (edits_storeTares _ _ added).keeps fun _ =>
    (revaluing_ignores owner).storing.storeTares added _ _)

theorem ignores_addLength (hsound : tree.Sound) {formula : Formula}
    (hgrows : Network.Grows tree.network after.network formula)
    (hcells : after.cells = tree.cells) :
    Ignores owner tree after := by
  intro old hold
  refine ⟨old, by rw [coordinate?_congr hcells, hold], rfl, .of_journal hgrows.journal ?_⟩
  rw [hgrows.formula, if_neg (Network.Grows.ne_of_lt (hsound.recipe_lt hold))]

theorem declares_make (tree : RegionTree) (name : String) (blueprint : Blueprint) :
    Declares owner tree (tree.make name blueprint) := by
  refine .of_ignores (edits_make tree name blueprint).keeps fun hsound => ?_
  unfold make
  split
  next formula hleaf =>
    exact ignores_addLength owner hsound
      (Network.grows_add tree.network (Blueprint.leaf_of_leaf? hleaf).operands) rfl
  next =>
    split
    next shape hshape =>
      refine ignores_addLength owner hsound
        (Network.grows_addCompound hsound.network.laid.builtIn fun operand hoperand => ?_) rfl
      exact hsound.network.laid.bounded operand
        (hsound.includes_named (Blueprint.named_of_shape? hshape hoperand))
    next => exact .refl tree

theorem declares_setConstant (tree : RegionTree) (id : LengthId) (value : Float) :
    Declares owner tree (tree.setConstant id value) := by
  refine .of_ignores (edits_setConstant tree id value).keeps fun hsound => ?_
  rcases setConstant_cases tree id value with hsame | ⟨number, hnumber, _, hedit⟩
  · rw [hsame]
    exact .refl tree
  · rw [hedit]
    intro old hcoordinate
    have hformula := formula?_of_constant? hnumber
    have hset : Network.Follows tree.audience tree.network
        (tree.network.setFormula id (.constant value)) :=
      Network.follows_setFormula tree.network hformula rfl rfl
    have hbypasses : Network.Bypasses owner old.recipe tree.network
        (tree.network.setFormula id (.constant value)) :=
      (Network.rereads_setFormula hformula (.constant value)).bypasses_of_eq
        (Network.reads_eq hformula).symm
    exact ⟨old, hcoordinate, rfl, hbypasses.trans
      (Network.bypasses_invalidate (hset.builtIn hsound.network.laid.builtIn) id)⟩

/-! Another recipe. -/

theorem ignores_announceRecipe {id : CoordinateId} (hne : id ≠ owner) (tree : RegionTree)
    (change : PrerequisiteChange) : Ignores owner tree (tree.announceRecipe id change) := by
  have hother : (Notice.sent (.prerequisites id change)).delta? owner = none := if_neg hne
  unfold announceRecipe
  split
  · exact ignores_send owner tree rfl
  · exact (ignores_send owner tree hother).trans (ignores_send owner _ rfl)

/-- The change to another recipe revises a set, if it is announced at all. -/
theorem reviseAll_announceRecipe (tree : RegionTree) (change : PrerequisiteChange)
    (set : CoordinateSet) : set.reviseAll
      (Network.deltas tree.network (tree.announceRecipe owner change).network owner) =
        set.revise change := by
  have hinvalidated : ∀ state : RegionTree,
      Network.deltas state.network (state.send (.invalidated owner)).network owner = [] :=
    fun state => Network.deltas_note state.network _
  unfold announceRecipe
  split
  next hempty =>
    rw [revise_of_isEmpty hempty, hinvalidated]
    rfl
  next =>
    have htold : Notice.delta? owner (.sent (.prerequisites owner change)) = some change :=
      if_pos rfl
    have hannounced : Network.deltas tree.network
        (tree.send (.prerequisites owner change)).network owner = [change] := by
      rw [send, Network.send, Network.deltas_note, htold]
      rfl
    have hrecorded : ∀ (state : RegionTree) message,
        Network.Recorded state.network (state.send message).network :=
      fun state message => .note state.network (.sent message)
    rw [Network.deltas_trans (hrecorded tree _) (hrecorded _ _), hannounced, hinvalidated]
    rfl

section SetRecipe

variable {bound : RegionTree} {id : CoordinateId} {coordinate old fresh : Coordinate}
  {recipe : LengthId} (hsound : tree.Sound) (hbound : bound.Sound)

include hsound

/-- While a coordinate's next recipe is bound, who has it as a recipe and who has another follow. -/
theorem tracks_reassigned (hcoordinate : tree.coordinate? id = some coordinate)
    (hheld : tree.audience.includes (.operandOf recipe) = true)
    (hold : (tree.reassign id coordinate recipe).coordinate? owner = some old) :
    Network.Tracks owner old.recipe tree.network
      ((tree.reassign id coordinate recipe).bindLength id recipe).network := by
  have hassigned := sound_reassign recipe hcoordinate hsound hheld
  have hlistens : Network.Bypasses owner old.recipe tree.network
      (tree.reassign id coordinate recipe).network :=
    .of_journal rfl (Network.formula?_subscribeBoth tree.network recipe old.recipe _)
  generalize tree.reassign id coordinate recipe = assigned at hold hassigned hlistens ⊢
  have hshifts : Network.Shifts assigned.audience assigned.network
      (assigned.bindLength id recipe).network :=
    Network.shifts_bind (hassigned.children_nodup id.cell) recipe assigned.network
  exact hlistens.tracks.trans (hshifts.tracks hassigned.network (hassigned.attends hold))

include hbound

/-- What was announced while the next recipe was bound is not what the old one became, and the
change from the one to the other puts that right. -/
theorem accounts_announceRecipe (hold : tree.coordinate? owner = some old)
    (hfresh : bound.coordinate? owner = some fresh)
    (htracks : Network.Tracks owner fresh.recipe tree.network bound.network) :
    Accounts owner tree (bound.announceRecipe owner
      (.between (tree.network.reads old.recipe) (bound.network.reads fresh.recipe))) := by
  have hannounced := (announceRecipe_spec bound owner
    (.between (tree.network.reads old.recipe) (bound.network.reads fresh.recipe))).1
  have hrevised := reviseAll_announceRecipe owner bound
    (.between (tree.network.reads old.recipe) (bound.network.reads fresh.recipe))
  generalize bound.announceRecipe owner _ = after at hannounced hrevised ⊢
  obtain ⟨new, hnew, hrecipe, _⟩ := hannounced.exists_coordinate hfresh
  have hreads : after.network.reads fresh.recipe = bound.network.reads fresh.recipe := by
    rw [Network.reads, hannounced.formula?, Network.reads]
  refine ⟨htracks.recorded.trans hannounced.recorded, ?_⟩
  rw [prerequisites_eq hsound hold, prerequisites_eq (hannounced.edits hbound).2 hnew, hrecipe,
    hreads, Network.deltas_trans htracks.recorded hannounced.recorded, reviseAll_append, hrevised]
  exact revise_between_reviseAll htracks.followed

theorem accounts_announceRecipe_of_ne (hne : id ≠ owner) (hold : tree.coordinate? owner = some old)
    (hkept : bound.coordinate? owner = some old)
    (htracks : Network.Tracks owner old.recipe tree.network bound.network)
    (change : PrerequisiteChange) : Accounts owner tree (bound.announceRecipe id change) := by
  obtain ⟨new, hnew, hrecipe, hbypasses⟩ := ignores_announceRecipe owner hne bound change old hkept
  have hafter := ((announceRecipe_spec bound id change).1.edits hbound).2
  exact .of_tracks hsound hafter hold hnew hrecipe (htracks.trans hbypasses.tracks)

end SetRecipe

theorem declares_setRecipe {id : CoordinateId} {recipe : LengthId}
    (hheld : tree.Sound → tree.audience.includes (.operandOf recipe) = true)
    (hset : tree.setRecipe id recipe = .ok after) : Declares owner tree after := by
  refine ⟨(edits_setRecipe hheld hset).keeps, fun hsound old hold => ?_⟩
  obtain ⟨coordinate, hcoordinate, hafter⟩ := exists_of_setRecipe hset
  have hassigned := sound_reassign recipe hcoordinate hsound (hheld hsound)
  have hbound := (edits_bindLength _ id recipe hassigned).2
  have hcoordinates := coordinate?_reassign recipe hcoordinate owner
  have hkept : ((tree.reassign id coordinate recipe).bindLength id recipe).coordinate? owner =
      (tree.reassign id coordinate recipe).coordinate? owner := rfl
  have htracks : ∀ present,
      (tree.reassign id coordinate recipe).coordinate? owner = some present →
        Network.Tracks owner present.recipe tree.network
          ((tree.reassign id coordinate recipe).bindLength id recipe).network :=
    fun _ => tracks_reassigned owner hsound hcoordinate (hheld hsound)
  rw [hsound.network.laid.builtIn.prerequisites,
    hbound.network.laid.builtIn.prerequisites] at hafter
  generalize (tree.reassign id coordinate recipe).bindLength id recipe = bound
    at hbound hkept htracks hafter
  rw [hafter]
  by_cases heq : id = owner
  · subst heq
    obtain rfl := Option.some.inj (hcoordinate.symm.trans hold)
    rw [if_pos rfl] at hcoordinates
    have haccounts := accounts_announceRecipe id hsound hbound hold
      (hkept.trans hcoordinates) (htracks _ hcoordinates)
    exact haccounts
  · rw [if_neg (Ne.symm heq), hold] at hcoordinates
    exact accounts_announceRecipe_of_ne owner hsound hbound heq hold (hkept.trans hcoordinates)
      (htracks old hcoordinates) _

/-! Whatever is done. -/

theorem ignores_setNames (tree : RegionTree) (names : List (String × LengthId)) :
    Ignores owner tree { tree with names } :=
  fun old hold => ⟨old, hold, rfl, .refl tree.network⟩

theorem ignores_rename {id : CellId} {name : Option String}
    (hrename : tree.rename id name = .ok after) : Ignores owner tree after := by
  rw [rename_eq_ok hrename]
  exact .of_steady (steady_editCell id (fun _ axis edge => by cases axis <;> cases edge <;> rfl)
    (fun _ axis edge => by cases axis <;> cases edge <;> rfl) tree) rfl

theorem ignores_setTare {id : CoordinateId} {tare : Option Float}
    (hset : tree.setTare id tare = .ok after) : Ignores owner tree after := by
  rw [setTare_eq_ok hset]
  exact (revaluing_ignores owner).storing.tareAs tree id tare

theorem declares_apply (tree : RegionTree) (edit : TreeEdit) :
    Declares owner tree (edit.apply tree) := by
  have happlied := edit.applied_apply tree
  have hkeeps := (edits_apply tree edit).keeps
  generalize edit.apply tree = after at happlied hkeeps ⊢
  cases happlied with
  | refused => exact .refl tree
  | made name blueprint => exact declares_make owner tree name blueprint
  | shared => exact .of_ignores hkeeps fun _ => ignores_setNames owner tree _
  | forgotten => exact .of_ignores hkeeps fun _ => ignores_setNames owner tree _
  | setConstant id value => exact declares_setConstant owner tree id value
  | createdCell hnamed =>
      exact declares_addCell owner false fun hsound => hsound.usable_named hnamed
  | createdRoot hnamed => exact declares_createRoot owner fun hsound => hsound.usable_named hnamed
  | inserted hinsert => exact declares_insert owner hinsert
  | removed hremove => exact declares_remove owner hremove
  | setRecipe hnamed hset =>
      exact declares_setRecipe owner (fun hsound => hsound.includes_named hnamed) hset
  | setTare hset => exact .of_ignores hkeeps fun _ => ignores_setTare owner hset
  | renamed hrename => exact .of_ignores hkeeps fun _ => ignores_rename owner hrename

theorem declares_act (tree : RegionTree) (action : TreeAction) :
    Declares owner tree (tree.act action) := by
  have hkeeps := keeps_act tree action
  cases action with
  | edit edit => exact declares_apply owner tree edit
  | calculate coordinate =>
      exact .of_ignores hkeeps fun _ =>
        (revaluing_ignores owner).calculating.calculate tree coordinate
  | bind name of =>
      simp only [act]
      split
      next id _ => exact declares_bindLength owner tree of id
      next => exact .refl tree

end Steps

/-- Whatever is done from some point on, the changes that a coordinate announces from there make of
what its recipe read there what its recipe reads at the end. So who follows it is right after each
action. -/
theorem deltas_add_up {actions : List TreeAction} {owner : CoordinateId}
    (hknown : ((acted actions).coordinate? owner).isSome) (run : List TreeAction) :
    (ofList ((acted actions).prerequisites owner)).reviseAll
        (Network.deltas (acted actions).network (acted (actions ++ run)).network owner) =
      ofList ((acted (actions ++ run)).prerequisites owner) := by
  have hdeclares : Declares owner (acted actions) (acted (actions ++ run)) := by
    rw [acted, acted, List.foldl_append]
    exact foldl_related .refl .trans (fun tree action _ => declares_act owner tree action) _
  obtain ⟨old, hold⟩ := Option.isSome_iff_exists.mp hknown
  exact (hdeclares.accounts (Sound.acted actions) old hold).followed

/-- A cell after another, and its end is at the end of their parent. -/
def besideWide : List TreeAction :=
  [.edit (.make "zero" (.constant 0.0)), .edit (.make "wide" (.ancestorSpan 1 1.0)),
    .edit (.createRoot ⟨"zero", "zero", "zero", "zero"⟩),
    .edit (.createCell ⟨"zero", "zero", "zero", "zero"⟩), .edit (.append ⟨0⟩ ⟨1⟩),
    .edit (.createCell ⟨"zero", "wide", "zero", "zero"⟩), .edit (.append ⟨0⟩ ⟨2⟩)]

/-- Its end is now half of the parent beyond the cell before it. The cell is removed, and its end is
as it was at first. -/
def replaced : List TreeAction :=
  [.edit (.make "half" (.ancestorSpan 1 0.5)), .edit (.make "peer" (.sibling .beta false 0.0)),
    .edit (.make "sum" (.binary .add "half" "peer")),
    .edit (.setRecipe ⟨⟨2⟩, .x, .beta⟩ "sum"), .edit (.remove ⟨0⟩ ⟨2⟩),
    .edit (.setRecipe ⟨⟨2⟩, .x, .beta⟩ "wide")]

/-- Each change is announced more than once or overlaps another, and they add up all the same. -/
theorem replaced_adds_up :
    Network.deltas (acted besideWide).network (acted (besideWide ++ replaced)).network
        ⟨⟨2⟩, .x, .beta⟩ =
      [.adding [⟨⟨0⟩, .x, .alpha⟩, ⟨⟨0⟩, .x, .beta⟩], .adding [⟨⟨1⟩, .x, .beta⟩],
        .adding [⟨⟨1⟩, .x, .beta⟩], .removing [⟨⟨0⟩, .x, .alpha⟩, ⟨⟨0⟩, .x, .beta⟩],
        .removing [⟨⟨0⟩, .x, .alpha⟩, ⟨⟨0⟩, .x, .beta⟩], .removing [⟨⟨1⟩, .x, .beta⟩]] ∧
    (ofList ((acted besideWide).prerequisites ⟨⟨2⟩, .x, .beta⟩)).reviseAll
        (Network.deltas (acted besideWide).network (acted (besideWide ++ replaced)).network
          ⟨⟨2⟩, .x, .beta⟩) =
      ofList ((acted (besideWide ++ replaced)).prerequisites ⟨⟨2⟩, .x, .beta⟩) :=
  ⟨by decide +kernel, deltas_add_up (by decide +kernel) replaced⟩

end RegionTree

end RegionLayout
