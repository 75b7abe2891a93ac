import RegionLayout.Proofs.Tree.Recipes
import RegionLayout.Tree.Watch

/-!
Watches are for looking on. Setting or ending one moves no value, and neither lengths nor
coordinates notice it.
-/

namespace RegionLayout

namespace Network

variable {network : Network} {channel : Channel} {id : LengthId} {listener : Listener}

theorem subscribe_of_le (hbuilt : network.BuiltIn) (hle : network.lengths.size ≤ id.index) :
    network.subscribe channel id listener = network := by
  have hsame : network.lengths.modify id.index (fun length =>
      length.setRoster (length.roster channel ++ [listener]) channel) = network.lengths := by
    refine Array.ext_getElem? fun index => ?_
    rw [Array.getElem?_modify]
    split
    next heq => simp [← heq, Array.getElem?_eq_none hle]
    next => rfl
  rw [subscribe, hbuilt.channelOf, edit, hsame]

end Network

namespace RegionTree

variable {tree after : RegionTree}

/-- Someone else came to listen to a length; the listening of coordinates stays. -/
structure Overhears (before after : RegionTree) : Prop where
  cells : after.cells = before.cells
  names : after.names = before.names
  enlists : Network.Enlists before.network after.network
  listed : ∀ channel id owner wiring, .recipeOf owner wiring ∈ after.network.listeners channel id →
    .recipeOf owner wiring ∈ before.network.listeners channel id

theorem Overhears.refl (tree : RegionTree) : Overhears tree tree :=
  ⟨rfl, rfl, .refl _, fun _ _ _ _ hmem => hmem⟩

theorem Overhears.edits (hoverhears : Overhears tree after) : Edits tree after := by
  intro hsound
  have hcoordinate := coordinate?_congr hoverhears.cells
  have hchildren := children_congr hoverhears.cells
  have hroots : after.roots = tree.roots := by
    rw [roots, hoverhears.names, hoverhears.cells, roots]
  refine ⟨⟨⟨?_, hoverhears.enlists.unfolds, fun id old hold => ?_⟩, fun id => ?_⟩,
    sound_of_enlists hsound.network hoverhears.enlists (fun root hroot => ?_)
      (fun owner coordinate hfound channel => ?_) (fun channel id owner wiring hmem => ?_)
      (fun id => ?_) fun id => ?_⟩
  · simp only [Network.Recorded, hoverhears.enlists.journal, List.prefix_rfl]
  · exact ⟨old, (hcoordinate id).trans hold,
      .of_same hsound rfl (fun id _ => hoverhears.enlists.formula id) hold⟩
  · rw [relative, hcoordinate, relative]
  · exact hsound.includes_root (hroots ▸ hroot)
  · rw [hcoordinate] at hfound
    exact hoverhears.enlists.kept channel _ (hsound.enrolled owner coordinate hfound channel)
  · rw [Addresses, hcoordinate]
    exact hsound.addressed channel id owner wiring (hoverhears.listed channel id owner wiring hmem)
  · rw [hchildren]
    exact hsound.children_nodup id
  · rw [hchildren, size, hoverhears.cells]
    exact hsound.children_lt id

theorem overhears_subscribe (hbuilt : tree.network.BuiltIn) (channel : Channel) (id : LengthId)
    (number : Nat) :
    Overhears tree
      (tree.mapNetwork fun network => network.subscribe channel id (.watch number)) := by
  rcases Nat.lt_or_ge id.index tree.network.lengths.size with hlt | hge
  · refine ⟨rfl, rfl, Network.enlists_subscribe hbuilt hlt channel nofun,
      fun along other owner wiring hmem => ?_⟩
    rw [mapNetwork, Network.listeners_subscribe _ _ _ _ _ hbuilt _ hlt] at hmem
    split at hmem
    · exact (List.mem_append.mp hmem).resolve_right (by simp)
    · exact hmem
  · rw [mapNetwork, Network.subscribe_of_le hbuilt hge]
    exact .refl tree

theorem edits_watch (tree : RegionTree) (tag : String) (target : WatchTarget) :
    Edits tree (tree.watch tag target).2 := by
  intro hsound
  have hbuilt := hsound.network.laid.builtIn
  have henrolled : Overhears tree (tree.enroll tree.nextWatch target) := by
    cases target with
    | lengthInvalidated id => exact overhears_subscribe hbuilt .invalidated id tree.nextWatch
    | lengthPrerequisites id => exact overhears_subscribe hbuilt .prerequisites id tree.nextWatch
    | _ => exact .refl tree
  unfold watch
  split
  · refine Overhears.edits ⟨?_, ?_, ?_, ?_⟩ hsound
    · exact henrolled.cells
    · exact henrolled.names
    · exact henrolled.enlists
    · exact henrolled.listed
  · exact Edits.refl tree hsound

theorem edits_unwatch (tree : RegionTree) (tag : String) : Edits tree (tree.unwatch tag).2 :=
  Overhears.edits ⟨rfl, rfl, .refl _, fun _ _ _ _ hmem => hmem⟩

end RegionTree

end RegionLayout
