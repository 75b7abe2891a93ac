import RegionLayout.Proofs.Graph.Removal

/-!
Histories of prerequisite graphs. Whatever nodes come and go and whatever edges are declared,
refused or revoked, the index, the vacant slots and the two directions of the edges stay in step.
-/

namespace RegionLayout

inductive GraphEdit (α : Type) where
  | add (node : α)
  | remove (node : α)
  | declare (prerequisite dependent : α)
  | revoke (prerequisite dependent : α)

namespace Graph

variable {α : Type} [DecidableEq α]

/-- A declaration that is refused changes nothing. -/
def perform (graph : Graph α) : GraphEdit α → Graph α
  | .add node => (graph.addNode node).2
  | .remove node => (graph.removeNode node).2
  | .declare prerequisite dependent =>
    match graph.declare prerequisite dependent with
    | .ok changed => changed
    | .error _ => graph
  | .revoke prerequisite dependent => (graph.revoke prerequisite dependent).2

/-- The graph that is made by some edits, the first of them on the empty graph. -/
def after (edits : List (GraphEdit α)) : Graph α :=
  edits.foldl perform .empty

theorem Sound.perform {graph : Graph α} (hsound : graph.Sound) (edit : GraphEdit α) :
    (graph.perform edit).Sound := by
  cases edit with
  | add node =>
      obtain ⟨_, hadds⟩ := exists_addsNode_addNode hsound node
      exact hadds.sound
  | remove node => exact hsound.removeNode node
  | declare prerequisite dependent =>
      rw [Graph.perform]
      cases hdeclared : graph.declare prerequisite dependent with
      | ok changed => exact (addsEdge_declare hsound hdeclared).sound
      | error cause => exact hsound
  | revoke prerequisite dependent => exact hsound.revoke prerequisite dependent

theorem sound_after (edits : List (GraphEdit α)) : (after edits).Sound :=
  List.foldlRecOn edits perform Sound.empty fun _ hsound edit _ => hsound.perform edit

/-! The representation. -/

/-- A sound graph seen through its lookups: the index leads to the one slot that holds a node, and
no edge leads to a vacant slot. -/
structure Intact (graph : Graph α) : Prop extends graph.Sound where
  indexOf?_iff : ∀ {node place}, graph.indexOf? node = some place ↔ graph.Holds place node
  prerequisite_held : ∀ {place other}, other ∈ graph.prerequisiteSlots place →
    ∃ node, graph.Holds other node
  dependent_held : ∀ {place other}, other ∈ graph.dependentSlots place →
    ∃ node, graph.Holds other node

theorem Sound.intact {graph : Graph α} (hsound : graph.Sound) : graph.Intact where
  toSound := hsound
  indexOf?_iff := indexOf?_eq_some_iff hsound
  prerequisite_held := Feeds.exists_source hsound
  dependent_held hmem := (hsound.feeds_iff.mpr hmem).exists_target

/-- No edit leaves the index, the vacant slots or the edges out of step. -/
theorem intact_after (edits : List (GraphEdit α)) : (after edits).Intact :=
  (sound_after edits).intact

end Graph

end RegionLayout
