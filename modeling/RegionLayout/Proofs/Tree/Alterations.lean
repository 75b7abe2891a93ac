import RegionLayout.Proofs.Tree.Moves
import RegionLayout.Proofs.Tree.Rebinding
import RegionLayout.Proofs.Tree.Unions

/-!
What edits do to the places that lengths are bound to. An edit leaves all of them as they are, or
makes a length that is not bound anywhere yet, or disturbs some coordinates and binds exactly these
anew.
-/

namespace RegionLayout

open Relation

/-- A formula as it is before its length is bound. -/
structure Formula.Unplaced (formula : Formula) : Prop where
  generations : ∀ generations, formula.reach? = some (.ancestor generations) → 0 < generations
  peer : ∀ own, formula.sibling? = some own → own.peer = .unresolved

theorem Blueprint.unplaced_of_leaf? {blueprint : Blueprint} {formula : Formula}
    (hleaf : blueprint.leaf? = some formula) : formula.Unplaced := by
  cases blueprint with
  | constant value =>
      rw [← Option.some.inj hleaf]
      exact ⟨nofun, nofun⟩
  | ancestorSpan own factor =>
      rw [← Option.some.inj hleaf]
      refine ⟨fun generations hreach => ?_, nofun⟩
      obtain rfl := Reach.ancestor.inj (Option.some.inj hreach)
      exact Nat.le_max_right own 1
  | childrenMax =>
      rw [← Option.some.inj hleaf]
      exact ⟨fun _ hreach => absurd (Option.some.inj hreach) nofun, nofun⟩
  | sibling edge strict offset =>
      rw [← Option.some.inj hleaf]
      refine ⟨nofun, fun own hown => ?_⟩
      rw [← Option.some.inj hown]
      rfl
  | _ => contradiction

namespace RegionTree

open Network

variable {tree before middle after : RegionTree} {owner : CoordinateId} {lower : LengthId}

theorem Steady.recipe? (hsteady : Steady before after) (owner : CoordinateId) :
    after.recipe? owner = before.recipe? owner := by
  have hwired := congrArg (Option.map Prod.fst) (hsteady.wired owner)
  rwa [Option.map_map, Option.map_map] at hwired

theorem Sound.recipe?_lt (hsound : tree.Sound) {recipe : LengthId}
    (hrecipe : tree.recipe? owner = some recipe) : recipe.index < tree.network.lengths.size := by
  obtain ⟨coordinate, hcoordinate, rfl⟩ := Option.map_eq_some_iff.mp hrecipe
  exact hsound.recipe_lt hcoordinate

theorem Sound.rooted (hsound : tree.Sound) : tree.Rooted :=
  ⟨hsound.network.laid.older, fun _ _ => hsound.recipe?_lt⟩

theorem Rooted.lt_of_partOf (hrooted : tree.Rooted) (hpart : tree.PartOf lower owner) :
    lower.index < tree.network.lengths.size := by
  obtain ⟨recipe, hrecipe, hbuilt⟩ := hpart
  exact (hrooted.older.le_of_builtOf hbuilt).trans_lt (hrooted.bounded owner recipe hrecipe)

/-- A new length is part of no recipe. -/
theorem Rooted.partOf_grows {formula : Formula} (hrooted : before.Rooted)
    (hcells : after.cells = before.cells) (hgrows : Grows before.network after.network formula) :
    after.PartOf lower owner ↔ before.PartOf lower owner := by
  rw [PartOf, PartOf, recipe?_congr hcells]
  refine exists_congr fun recipe => and_congr_right fun hrecipe => ?_
  exact hgrows.builtOf_iff hrooted.older (hrooted.bounded owner recipe hrecipe)

/-! What an edit does not touch. -/

/-- A coordinate has the recipe, and its cell the ancestors and the children, that it had. -/
structure Undisturbed (before after : RegionTree) (owner : CoordinateId) : Prop where
  recipe : after.recipe? owner = before.recipe? owner
  ancestors : after.ancestors owner.cell = before.ancestors owner.cell
  children : after.children owner.cell = before.children owner.cell

theorem Undisturbed.of_sameLinks (hlinks : SameLinks before after)
    (hrecipe : after.recipe? owner = before.recipe? owner) : Undisturbed before after owner where
  recipe := hrecipe
  ancestors := ancestors_congr hlinks.size fun other _ => hlinks.parent other
  children := hlinks.children owner.cell

theorem Undisturbed.trans (hfirst : Undisturbed before middle owner)
    (hsecond : Undisturbed middle after owner) : Undisturbed before after owner where
  recipe := hsecond.recipe.trans hfirst.recipe
  ancestors := hsecond.ancestors.trans hfirst.ancestors
  children := hsecond.children.trans hfirst.children

/-- What an edit does to the places that lengths are bound to. -/
inductive Alters (before after : RegionTree) : Prop where
  | rests (links : SameLinks before after)
      (recipes : ∀ owner, after.recipe? owner = before.recipe? owner)
      (network : Rests before.network after.network)
      (siblings : ∀ id, after.network.sibling? id = before.network.sibling? id)
  | grows {formula : Formula} (cells : after.cells = before.cells)
      (network : Grows before.network after.network formula) (unplaced : formula.Unplaced)
  /-- Whatever was disturbed is bound anew; values may follow. -/
  | reseats {owners : CoordinateId → Prop} {disturbed bound : RegionTree}
      (network : Recounts before.network disturbed.network)
      (rebinding : Rebinding owners disturbed bound)
      (others : ∀ owner, ¬ owners owner → Undisturbed before bound owner)
      (links : SameLinks bound after) (steady : Steady bound after)

namespace Alters

theorem of_steady (hlinks : SameLinks before after) (hsteady : Steady before after) :
    Alters before after :=
  .rests hlinks hsteady.recipe? (.of_lengths hsteady.lengths) fun id => by
    rw [Network.sibling?, hsteady.formula?, Network.sibling?]

theorem refl (tree : RegionTree) : Alters tree tree :=
  .of_steady (.refl tree) (.refl tree)

theorem of_revalues (hrevalues : Revalues before after) : Alters before after :=
  .of_steady (.of_revalues hrevalues) hrevalues.toSteady

theorem of_network (hcells : after.cells = before.cells)
    (hnetwork : after.network = before.network) : Alters before after :=
  .rests (.of_cells hcells) (recipe?_congr hcells) (hnetwork ▸ .refl before.network)
    fun _ => by rw [hnetwork]

end Alters

/-! Moves. -/

section Moves

variable {parent child : CellId} {index : Nat} {place : Option (CellId × Nat)}

/-- What hangs neither from the moved cell nor is one of the cells that it left and joined. -/
theorem Moved.undisturbed (hmoved : Moved before after child place)
    (hbelow : ¬ ReflTransGen after.IsParent child owner.cell)
    (hold : before.parent child ≠ some owner.cell) (hnew : place.map (·.1) ≠ some owner.cell) :
    Undisturbed before after owner where
  recipe := hmoved.recipe owner
  ancestors := by
    -- The way up from the cell never passes the one that moved, in the new tree as in the old.
    refine (ancestors_congr hmoved.size.symm fun other hother => ?_).symm
    exact (hmoved.other_parents other fun heq => hbelow (heq ▸ hother)).symm
  children := hmoved.other_children owner.cell hold hnew

/-- A move ends with the binding of all that hangs from the moved cell, and of the cells that it
left and joined. -/
structure EndsBound (before after : RegionTree) (child : CellId) (place : Option (CellId × Nat))
    (middle : RegionTree) : Prop where
  recounts : Recounts before.network middle.network
  rebinds : after = middle.rebind
    (middle.subtree child ++ (before.parent child).toList ++ (place.map (·.1)).toList)

theorem Moved.alters (hmoved : Moved before after child place) (hforest : after.Forest)
    (hends : EndsBound before after child place middle) : Alters before after := by
  have hrebinding := rebinding_rebind middle
    (middle.subtree child ++ (before.parent child).toList ++ (place.map (·.1)).toList)
  rw [← hends.rebinds] at hrebinding
  have hlinks : SameLinks after middle := .of_cells hrebinding.cells.symm
  refine .reseats hends.recounts hrebinding (fun owner howner => ?_) (.refl after) (.refl after)
  simp only [List.mem_append, Option.mem_toList, not_or] at howner
  obtain ⟨⟨hsubtree, hold⟩, hnew⟩ := howner
  refine hmoved.undisturbed (fun hbelow => hsubtree ?_) hold hnew
  exact (hforest.sameLinks hlinks).mem_subtree_iff.mpr
    (ReflTransGen.mono (fun _ _ => (Forest.isParent_of_sameLinks hlinks).mpr) _ _ hbelow)

theorem relinking_recounts :
    Relinking fun before after => Recounts before.network after.network where
  refl _ := .refl _
  trans := .trans
  evaluated _ _ := .of_lengths rfl
  storeTare tree id tare := .of_lengths (retares_storeTare tree id tare).lengths
  setParent _ _ _ := .of_lengths rfl
  setChildren _ _ _ := .of_lengths rfl
  tellParent _ _ _ _ := .of_lengths rfl
  tellChildren _ _ := .of_lengths rfl

theorem endsBound_place (tree : RegionTree) (parent child : CellId) (index : Nat) :
    EndsBound tree (tree.place parent child index) child (some (parent, index))
      (tree.relocated parent child index) := by
  refine ⟨relinking_recounts.relocated tree parent child index, ?_⟩
  rw [place_eq, Option.map_some, Option.toList_some]

theorem endsBound_remove (hremove : tree.remove parent child = .ok after)
    (hparent : tree.parent child = some parent) :
    EndsBound tree after child none (tree.loosened parent child) := by
  refine ⟨relinking_recounts.loosened tree parent child, ?_⟩
  rw [remove_eq_ok hremove, hparent, Option.map_none, Option.toList_none, List.append_nil,
    Option.toList_some]

theorem alters_insert (hforest : tree.Forest)
    (hinsert : tree.insert parent child index = .ok after) : Alters tree after := by
  have hmoved := moved_of_insert hforest hinsert
  have hafter := hforest.insert hinsert
  obtain ⟨_, rfl⟩ := insert_eq_ok hinsert
  exact hmoved.alters hafter (endsBound_place tree parent child index)

theorem alters_remove (hforest : tree.Forest) (hremove : tree.remove parent child = .ok after) :
    Alters tree after := by
  obtain ⟨hparent, hmoved⟩ := moved_of_remove hforest hremove
  exact hmoved.alters (hforest.remove hremove) (endsBound_remove hremove hparent)

end Moves

/-! Lengths. -/

theorem alters_setConstant (tree : RegionTree) (id : LengthId) (value : Float) :
    Alters tree (tree.setConstant id value) := by
  rcases setConstant_cases tree id value with hsame | ⟨old, hold, _, hedit⟩
  · rw [hsame]
    exact .refl tree
  · rw [hedit]
    have hfound := formula?_of_constant? hold
    have hset : Rests tree.network (tree.network.setFormula id (.constant value)) :=
      rests_setFormula hfound rfl rfl rfl
    have htold : Recounts (tree.network.setFormula id (.constant value))
        ((tree.network.setFormula id (.constant value)).invalidate tree.audience id) :=
      (announcing_recounts tree.audience).announceInvalidated _ _ _
    refine .rests (.of_cells rfl) (recipe?_congr rfl) (hset.trans htold.rests) fun other => ?_
    refine (htold.formula other).sibling?_eq.trans ?_
    rw [formula?_setFormula]
    split
    next heq =>
      rw [heq, Network.sibling?, hfound]
      rfl
    next => rfl

theorem alters_make (hsound : tree.Sound) (name : String) (blueprint : Blueprint) :
    Alters tree (tree.make name blueprint) := by
  unfold RegionTree.make
  split
  next formula hleaf =>
    exact .grows rfl (grows_add tree.network (Blueprint.leaf_of_leaf? hleaf).operands)
      (Blueprint.unplaced_of_leaf? hleaf)
  next =>
    split
    next shape hshape =>
      refine .grows rfl (grows_addCompound hsound.network.laid.builtIn fun operand hoperand => ?_)
        ⟨nofun, nofun⟩
      exact hsound.network.laid.bounded operand
        (hsound.includes_named (Blueprint.named_of_shape? hshape hoperand))
    next => exact .refl tree

/-! New cells and new recipes. -/

theorem recounts_listenTo (tree : RegionTree) (id : CoordinateId) (coordinate : Coordinate) :
    Recounts tree.network (tree.listenTo id coordinate).network := by
  rw [listenTo, mapNetwork]
  exact .of_formula? (size_subscribeBoth _ _ _) fun other => formula?_subscribeBoth _ _ other _

theorem recounts_listenAll (tree : RegionTree) (pairs : List (CoordinateId × Coordinate)) :
    Recounts tree.network (tree.listenAll pairs).network :=
  foldl_related (r := fun first second : RegionTree => Recounts first.network second.network)
    (fun _ => .refl _) .trans (fun state pair _ => recounts_listenTo state pair.1 pair.2) tree

theorem Forest.ancestors_addCell (hforest : tree.Forest) (recipes : Recipes) (pinned : Bool)
    (id : CellId) : (tree.addCell recipes pinned).ancestors id = tree.ancestors id := by
  have hsize : (tree.addCell recipes pinned).size = tree.size + 1 := by
    rw [size, cells_addCell, Array.size_push, size]
  have hclimb : (tree.addCell recipes pinned).climb (tree.size + 1) id =
      tree.climb (tree.size + 1) id :=
    climb_congr _ fun other _ => parent_addCell tree recipes pinned other
  rw [ancestors, hsize, hclimb, hforest.climb_size_add]

theorem alters_addCell (hforest : tree.Forest) (recipes : Recipes) (pinned : Bool)
    (hlinks : SameLinks (tree.addCell recipes pinned) after)
    (hsteady : Steady (tree.addCell recipes pinned) after) : Alters tree after := by
  have hrecounts := recounts_listenAll (tree.withCell (.of recipes pinned))
    (tree.newCoordinates (.of recipes pinned))
  have hrebinding := rebinding_rebind ((tree.withCell (.of recipes pinned)).listenAll
    (tree.newCoordinates (.of recipes pinned))) [tree.nextCell]
  rw [← addCell_eq] at hrebinding
  refine .reseats hrecounts hrebinding (fun owner howner => ?_) hlinks hsteady
  have hne : owner.cell ≠ tree.nextCell := fun heq => howner (heq ▸ List.mem_singleton_self _)
  refine ⟨?_, hforest.ancestors_addCell recipes pinned owner.cell,
    children_addCell tree recipes pinned owner.cell⟩
  rw [recipe?, coordinate?_addCell tree recipes pinned hne, recipe?]

theorem alters_createRoot (hforest : tree.Forest) (recipes : Recipes) :
    Alters tree (tree.createRoot recipes).2 := by
  have hroot : Retares (tree.addCell recipes true) (tree.createRoot recipes).2 := by
    unfold RegionTree.createRoot
    generalize tree.addCell recipes true = added
    exact retaring_retares.storing.storeTares added _ _
  exact alters_addCell hforest recipes true (.of_revalues hroot.toRevalues) hroot.toSteady

theorem alters_setRecipe {id : CoordinateId} {recipe : LengthId}
    (hset : tree.setRecipe id recipe = .ok after) : Alters tree after := by
  obtain ⟨coordinate, hcoordinate, rfl⟩ := exists_of_setRecipe hset
  have hassigned := coordinate?_reassign recipe hcoordinate
  have hlinks := sameLinks_reassign tree id coordinate recipe
  have hrecounts : Recounts tree.network (tree.reassign id coordinate recipe).network :=
    recounts_listenTo tree id { coordinate with recipe, wiring := coordinate.wiring + 1 }
  clear hset
  generalize tree.reassign id coordinate recipe = assigned at hassigned hlinks hrecounts ⊢
  have hrebinding : Rebinding (· = id) assigned (assigned.bindLength id recipe) :=
    rebinding_bind assigned.audience (by rw [recipe?, hassigned, if_pos rfl, Option.map_some])
  have htold := (announceRecipe_spec (assigned.bindLength id recipe) id
    (.between (tree.network.prerequisites coordinate.recipe)
      ((assigned.bindLength id recipe).network.prerequisites recipe))).1
  refine .reseats hrecounts hrebinding (fun owner howner => ?_)
    (.of_revalues htold.toRevalues) htold.toSteady
  refine .of_sameLinks (hlinks.trans (.of_cells hrebinding.cells)) ?_
  rw [recipe?_congr hrebinding.cells, recipe?, hassigned, if_neg howner, recipe?]

/-! Any actions. -/

theorem alters_setName (tree : RegionTree) (id : CellId) (name : Option String) :
    Alters tree (tree.setName id name) := by
  refine .of_steady (sameLinks_setName tree id name) (steady_editCell id
    (fun _ axis edge => ?_) (fun _ axis edge => ?_) tree)
  all_goals cases axis <;> cases edge <;> rfl

theorem alters_apply (hsound : tree.Sound) (hforest : tree.Forest) (edit : TreeEdit) :
    Alters tree (edit.apply tree) := by
  have happlied := edit.applied_apply tree
  generalize edit.apply tree = after at happlied ⊢
  cases happlied with
  | refused => exact .refl tree
  | made name blueprint => exact alters_make hsound name blueprint
  | shared => exact .of_network rfl rfl
  | forgotten => exact .of_network rfl rfl
  | setConstant id value => exact alters_setConstant tree id value
  | createdCell => exact alters_addCell hforest _ false (.refl _) (.refl _)
  | createdRoot => exact alters_createRoot hforest _
  | inserted hinsert => exact alters_insert hforest hinsert
  | removed hremove => exact alters_remove hforest hremove
  | setRecipe _ hset => exact alters_setRecipe hset
  | setTare hset =>
      rw [setTare_eq_ok hset]
      exact .of_revalues (retares_tareAs tree _ _).toRevalues
  | renamed hrename =>
      rw [rename_eq_ok hrename]
      exact alters_setName tree _ _

/-- Nothing but direct binding can have a length bound where its owner is not. -/
theorem alters_act (hsound : tree.Sound) (hforest : tree.Forest) {action : TreeAction}
    (hdirect : ∀ name owner, action ≠ .bind name owner) : Alters tree (tree.act action) := by
  cases action with
  | edit edit => exact alters_apply hsound hforest edit
  | calculate coordinate => exact .of_revalues (calculate_spec tree coordinate).2.1
  | bind name owner => exact absurd rfl (hdirect name owner)

theorem Forest.act (hforest : tree.Forest) (action : TreeAction) : (tree.act action).Forest := by
  cases action with
  | edit edit => exact hforest.apply edit
  | calculate coordinate => exact hforest.perform (.calculate coordinate)
  | bind name owner =>
      simp only [RegionTree.act]
      split
      next => exact hforest.sameLinks (.of_cells rfl)
      next => exact hforest

theorem forest_acted (actions : List TreeAction) : (acted actions).Forest :=
  List.foldlRecOn actions RegionTree.act Forest.empty fun _ hforest action _ => hforest.act action

end RegionTree

end RegionLayout
