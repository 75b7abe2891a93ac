import RegionLayout.Proofs.Acyclic
import RegionLayout.Proofs.Tree.Operations

/-!
Forests. Parents and children agree and nothing hangs below itself, so climbing from a cell ends by
itself before its bound on steps does, and a walk through what is below a cell meets nothing twice.
-/

namespace RegionLayout

open Relation

namespace RegionTree

def IsParent (tree : RegionTree) (parent child : CellId) : Prop :=
  tree.parent child = some parent

structure Forest (tree : RegionTree) : Prop where
  mem_children_iff : ∀ parent child, child ∈ tree.children parent ↔ tree.IsParent parent child
  nodup : ∀ id, (tree.children id).Nodup
  acyclic : Acyclic tree.IsParent
  pinned : ∀ id, tree.isPinned id = true → tree.parent id = none

variable {tree after : RegionTree} {id other parent child : CellId} {steps : Nat}

theorem contains_of_isParent (hparent : tree.IsParent parent child) :
    tree.contains child = true := by
  rw [contains]
  cases hcell : tree.cell? child with
  | none =>
      rw [IsParent, RegionTree.parent, hcell] at hparent
      contradiction
  | some cell => rfl

theorem contains_of_mem_children (hchild : child ∈ tree.children parent) :
    tree.contains parent = true := by
  rw [contains]
  cases hcell : tree.cell? parent with
  | none =>
      rw [children, hcell] at hchild
      contradiction
  | some cell => rfl

theorem mem_cellIds (hknown : tree.contains id = true) : id ∈ tree.cellIds := by
  obtain ⟨cell, hcell⟩ := Option.isSome_iff_exists.mp hknown
  obtain ⟨hlt, _⟩ := Array.getElem?_eq_some_iff.mp hcell
  exact List.mem_map.mpr ⟨id.index, List.mem_range.mpr hlt, rfl⟩

theorem length_le_size {ids : List CellId} (hnodup : ids.Nodup)
    (hknown : ∀ id ∈ ids, tree.contains id = true) : ids.length ≤ tree.size := by
  have hsub : ids ⊆ tree.cellIds := fun id hid => mem_cellIds (hknown id hid)
  simpa [cellIds] using (List.subperm_of_subset hnodup hsub).length_le

namespace Forest

theorem isParent_of_sameLinks (hsame : SameLinks tree after) :
    after.IsParent parent child ↔ tree.IsParent parent child := by
  rw [IsParent, hsame.parent, IsParent]

theorem sameLinks (hforest : tree.Forest) (hsame : SameLinks tree after) : after.Forest where
  mem_children_iff parent child := by
    rw [hsame.children, isParent_of_sameLinks hsame, hforest.mem_children_iff]
  nodup id := hsame.children id ▸ hforest.nodup id
  acyclic := hforest.acyclic.mono fun _ _ => (isParent_of_sameLinks hsame).mp
  pinned id := by
    rw [hsame.isPinned, hsame.parent]
    exact hforest.pinned id

theorem contains_parent (hforest : tree.Forest) (hparent : tree.IsParent parent child) :
    tree.contains parent = true :=
  contains_of_mem_children ((hforest.mem_children_iff parent child).mpr hparent)

theorem contains_of_transGen (hforest : tree.Forest)
    (habove : TransGen tree.IsParent other id) : tree.contains other = true := by
  obtain ⟨next, hnext, _⟩ := TransGen.head'_iff.mp habove
  exact hforest.contains_parent hnext

/-! Climbing. -/

theorem transGen_of_mem_climb (hmem : other ∈ tree.climb steps id) :
    TransGen tree.IsParent other id := by
  induction steps generalizing id with
  | zero => contradiction
  | succ steps ih =>
      rw [climb] at hmem
      split at hmem
      next parent hparent =>
        rcases List.mem_cons.mp hmem with rfl | hmem
        · exact .single hparent
        · exact (ih hmem).tail hparent
      next => contradiction

theorem nodup_climb (hforest : tree.Forest) (steps : Nat) (id : CellId) :
    (id :: tree.climb steps id).Nodup := by
  induction steps generalizing id with
  | zero => exact List.nodup_singleton id
  | succ steps ih =>
      refine List.nodup_cons.mpr ⟨fun hmem => ?_, ?_⟩
      · exact hforest.acyclic id (transGen_of_mem_climb hmem)
      · rw [climb]
        split
        next parent _ => exact ih parent
        next => exact List.nodup_nil

theorem length_climb_lt (hforest : tree.Forest) (hknown : tree.contains id = true) (steps : Nat) :
    (tree.climb steps id).length < tree.size := by
  refine length_le_size (hforest.nodup_climb steps id) fun other hother => ?_
  rcases List.mem_cons.mp hother with rfl | hother
  · exact hknown
  · exact hforest.contains_of_transGen (transGen_of_mem_climb hother)

theorem climb_add (hends : (tree.climb steps id).length < steps) (extra : Nat) :
    tree.climb (steps + extra) id = tree.climb steps id := by
  induction steps generalizing id with
  | zero => exact absurd hends (Nat.not_lt_zero _)
  | succ steps ih =>
      rw [climb] at hends
      rw [Nat.succ_add, climb, climb]
      split
      next parent hparent =>
        rw [hparent] at hends
        rw [ih (Nat.lt_of_succ_lt_succ hends)]
      next => rfl

/-- Climbing reaches a root within as many steps as there are cells. -/
theorem climb_size_add (hforest : tree.Forest) (id : CellId) (extra : Nat) :
    tree.climb (tree.size + extra) id = tree.ancestors id := by
  by_cases hknown : tree.contains id = true
  · exact climb_add (hforest.length_climb_lt hknown tree.size) extra
  · have hnone : ∀ steps, tree.climb steps id = [] := by
      intro steps
      cases steps with
      | zero => rfl
      | succ steps =>
          rw [climb]
          split
          next parent hparent => exact absurd (contains_of_isParent hparent) hknown
          next => rfl
    rw [ancestors, hnone, hnone]

theorem ancestors_eq (hforest : tree.Forest) (id : CellId) :
    tree.ancestors id = ((tree.parent id).map fun parent =>
      parent :: tree.ancestors parent).getD [] := by
  rw [← hforest.climb_size_add id 1, climb]
  cases tree.parent id with
  | none => rfl
  | some parent => rfl

theorem mem_ancestors_iff (hforest : tree.Forest) :
    other ∈ tree.ancestors id ↔ TransGen tree.IsParent other id := by
  refine ⟨transGen_of_mem_climb, fun habove => ?_⟩
  induction habove with
  | single hparent =>
      rw [hforest.ancestors_eq, show tree.parent _ = some other from hparent]
      exact List.mem_cons_self
  | tail _ hparent ih =>
      rw [hforest.ancestors_eq, show tree.parent _ = some _ from hparent]
      exact List.mem_cons_of_mem _ ih

end Forest

/-- Climbing depends on nothing but the parents of a cell and of those above it. -/
theorem climb_congr (steps : Nat)
    (hparent : ∀ other, ReflTransGen tree.IsParent other id →
      after.parent other = tree.parent other) :
    after.climb steps id = tree.climb steps id := by
  induction steps generalizing id with
  | zero => rfl
  | succ steps ih =>
      rw [climb, climb, hparent id .refl]
      split
      next parent habove => rw [ih fun other hother => hparent other (hother.tail habove)]
      next => rfl

theorem ancestors_congr (hsize : after.size = tree.size)
    (hparent : ∀ other, ReflTransGen tree.IsParent other id →
      after.parent other = tree.parent other) :
    after.ancestors id = tree.ancestors id := by
  rw [ancestors, hsize, climb_congr tree.size hparent, ancestors]

/-! Walking through what is below a cell. -/

/-- A walk that has visited some cells and has others ahead of it, all of them reached from where it
started. -/
structure Explores (tree : RegionTree) (start : CellId) (visited ahead : List CellId) : Prop where
  nodup : (visited ++ ahead).Nodup
  below : ∀ id ∈ visited ++ ahead, ReflTransGen tree.IsParent start id
  parent : ∀ id ∈ visited ++ ahead, id ≠ start → ∃ parent ∈ visited, tree.IsParent parent id

namespace Explores

variable {start : CellId} {visited ahead next : List CellId}

theorem begins (tree : RegionTree) (start : CellId) : Explores tree start [] [start] where
  nodup := List.nodup_singleton start
  below _ hid := List.mem_singleton.mp hid ▸ .refl
  parent _ hid hne := absurd (List.mem_singleton.mp hid) hne

theorem sameLinks (hexplores : Explores tree start visited ahead) (hsame : SameLinks tree after) :
    Explores after start visited ahead where
  nodup := hexplores.nodup
  below id hid := ReflTransGen.mono (fun _ _ => (Forest.isParent_of_sameLinks hsame).mpr) _ _
    (hexplores.below id hid)
  parent id hid hne := by
    obtain ⟨parent, hparent, hedge⟩ := hexplores.parent id hid hne
    exact ⟨parent, hparent, (Forest.isParent_of_sameLinks hsame).mpr hedge⟩

/-- A child of a cell that is still ahead was met neither before nor ahead. -/
theorem not_mem_of_isParent (hforest : tree.Forest)
    (hexplores : Explores tree start visited (id :: ahead)) (hparent : tree.IsParent id child) :
    child ∉ visited ++ id :: ahead := by
  intro hmem
  by_cases heq : child = start
  · have hbelow := hexplores.below id (List.mem_append_right _ List.mem_cons_self)
    exact hforest.acyclic child (heq ▸ TransGen.tail' hbelow (heq ▸ hparent))
  · obtain ⟨other, hother, hedge⟩ := hexplores.parent child hmem heq
    obtain rfl : id = other := Option.some.inj (hparent.symm.trans hedge)
    exact (List.nodup_append.mp hexplores.nodup).2.2 id hother id List.mem_cons_self rfl

theorem step (hforest : tree.Forest) (hexplores : Explores tree start visited (id :: ahead))
    (hnodup : next.Nodup) (hnext : ∀ child ∈ next, tree.IsParent id child) :
    Explores tree start (id :: visited) (next ++ ahead) := by
  have hperm : List.Perm ((id :: visited) ++ (next ++ ahead)) (next ++ (visited ++ id :: ahead)) :=
    calc (id :: visited) ++ (next ++ ahead)
      List.Perm _ (id :: (next ++ (visited ++ ahead))) := by
          rw [List.cons_append, ← List.append_assoc visited, ← List.append_assoc next]
          exact .cons id (.append_right ahead List.perm_append_comm)
      List.Perm _ (next ++ id :: (visited ++ ahead)) := List.perm_middle.symm
      List.Perm _ (next ++ (visited ++ id :: ahead)) := .append_left next List.perm_middle.symm
  have hbelow := hexplores.below id (List.mem_append_right _ List.mem_cons_self)
  refine ⟨?_, fun other hother => ?_, fun other hother hne => ?_⟩
  · rw [hperm.nodup_iff]
    refine List.nodup_append.mpr ⟨hnodup, hexplores.nodup, fun child hchild other hother heq => ?_⟩
    exact hexplores.not_mem_of_isParent hforest (hnext child hchild) (heq ▸ hother)
  · rcases List.mem_append.mp (hperm.mem_iff.mp hother) with hchild | hold
    · exact hbelow.tail (hnext other hchild)
    · exact hexplores.below other hold
  · rcases List.mem_append.mp (hperm.mem_iff.mp hother) with hchild | hold
    · exact ⟨id, List.mem_cons_self, hnext other hchild⟩
    · obtain ⟨parent, hparent, hedge⟩ := hexplores.parent other hold hne
      exact ⟨parent, List.mem_cons_of_mem _ hparent, hedge⟩

theorem length_le (hexplores : Explores tree start visited ahead)
    (hknown : tree.contains start = true) : visited.length + ahead.length ≤ tree.size := by
  rw [← List.length_append]
  refine length_le_size hexplores.nodup fun id hid => ?_
  by_cases heq : id = start
  · rw [heq, hknown]
  · obtain ⟨parent, _, hparent⟩ := hexplores.parent id hid heq
    exact contains_of_isParent hparent

end Explores

end RegionTree

end RegionLayout
