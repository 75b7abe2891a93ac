import RegionLayout.Proofs.Tree.Forest

/-!
Preorder. Cells are listed in order, each with everything below it before the next. In a forest or
not, a walk with a stack ends with a listing exactly if the recursion over children does. In a
forest both end, having listed the start and what is below it, each cell once; and that is its
subtree.
-/

namespace RegionLayout

open Relation

namespace RegionTree

variable {tree : RegionTree} {id other start : CellId} {steps : Nat}
  {ids others ahead visited listing remaining stack : List CellId}

/-- Some cells in order, each with everything below it before the next. -/
inductive Preorder (tree : RegionTree) : List CellId → List CellId → Prop where
  | nil : Preorder tree [] []
  | cons {id : CellId} {rest below after : List CellId}
      (hbelow : Preorder tree (tree.children id) below) (hafter : Preorder tree rest after) :
      Preorder tree (id :: rest) (id :: (below ++ after))

namespace Preorder

theorem append (hlisting : tree.Preorder ids listing)
    (hremaining : tree.Preorder others remaining) :
    tree.Preorder (ids ++ others) (listing ++ remaining) := by
  induction hlisting with
  | nil => exact hremaining
  | cons hbelow _ _ ih =>
      rw [List.cons_append, List.cons_append, List.append_assoc]
      exact .cons hbelow ih

theorem exists_append (hlisting : tree.Preorder (ids ++ others) listing) :
    ∃ first second, tree.Preorder ids first ∧ tree.Preorder others second ∧
      listing = first ++ second := by
  induction ids generalizing listing with
  | nil => exact ⟨[], listing, .nil, hlisting, rfl⟩
  | cons id ids ih =>
      cases hlisting with
      | cons hbelow hafter =>
          obtain ⟨first, second, hfirst, hsecond, rfl⟩ := ih hafter
          refine ⟨_, second, .cons hbelow hfirst, hsecond, ?_⟩
          rw [List.cons_append, List.append_assoc]

theorem exists_of_forall (hids : ∀ id ∈ ids, ∃ listing, tree.Preorder [id] listing) :
    ∃ listing, tree.Preorder ids listing := by
  induction ids with
  | nil => exact ⟨[], .nil⟩
  | cons id ids ih =>
      obtain ⟨hid, hrest⟩ := List.forall_mem_cons.mp hids
      obtain ⟨first, hfirst⟩ := hid
      obtain ⟨second, hsecond⟩ := ih hrest
      exact ⟨first ++ second, hfirst.append hsecond⟩

theorem unique (hlisting : tree.Preorder ids listing) (hother : tree.Preorder ids remaining) :
    listing = remaining := by
  induction hlisting generalizing remaining with
  | nil =>
      cases hother with
      | nil => rfl
  | cons _ _ ihbelow ihafter =>
      cases hother with
      | cons hbelow hafter => rw [ihbelow hbelow, ihafter hafter]

/-- A bounded walk is not cut short if it has a step for each listed cell. -/
theorem descend_eq (hlisting : tree.Preorder ids listing) (henough : listing.length ≤ steps) :
    tree.descend steps ids = listing := by
  induction steps generalizing ids listing with
  | zero =>
      obtain rfl := List.length_eq_zero_iff.mp (Nat.le_zero.mp henough)
      rfl
  | succ steps ih =>
      cases hlisting with
      | nil => rfl
      | cons hbelow hafter =>
          rw [descend, ih (hbelow.append hafter) (Nat.le_of_succ_le_succ henough)]

theorem mem_of_mem (hlisting : tree.Preorder ids listing) (hid : id ∈ ids) : id ∈ listing := by
  induction hlisting with
  | nil => contradiction
  | cons _ _ _ ih =>
      rcases List.mem_cons.mp hid with rfl | hid
      · exact List.mem_cons_self
      · exact List.mem_cons_of_mem _ (List.mem_append_right _ (ih hid))

theorem mem_of_isParent (hforest : tree.Forest) (hlisting : tree.Preorder ids listing)
    (hid : id ∈ listing) (hparent : tree.IsParent id other) : other ∈ listing := by
  induction hlisting with
  | nil => contradiction
  | cons hbelow _ ihbelow ihafter =>
      refine List.mem_cons_of_mem _ (List.mem_append.mpr ?_)
      rcases List.mem_cons.mp hid with rfl | hid
      · exact .inl (hbelow.mem_of_mem ((hforest.mem_children_iff _ _).mpr hparent))
      · exact (List.mem_append.mp hid).imp ihbelow ihafter

/-- A walk that has some cells ahead of it visits all of their listing before it comes to others. -/
theorem explores (hforest : tree.Forest) (hlisting : tree.Preorder ids listing)
    (hexplores : Explores tree start visited (ids ++ ahead)) :
    Explores tree start (listing.reverse ++ visited) ahead := by
  induction hlisting generalizing visited ahead with
  | nil => exact hexplores
  | @cons id rest below after _ _ ihbelow ihafter =>
      have hnext : Explores tree start (id :: visited) (tree.children id ++ (rest ++ ahead)) :=
        hexplores.step hforest (hforest.nodup id) fun child =>
          (hforest.mem_children_iff id child).mp
      simpa using ihafter (ihbelow hnext)

section Start

variable (hforest : tree.Forest) (hlisting : tree.Preorder [start] listing)

include hforest hlisting

theorem explores_start : Explores tree start listing.reverse [] := by
  have hexplores := hlisting.explores hforest (Explores.begins tree start)
  rwa [List.append_nil] at hexplores

theorem nodup : listing.Nodup := by
  have hnodup := (hlisting.explores_start hforest).nodup
  rwa [List.append_nil, List.nodup_reverse] at hnodup

theorem mem_iff : id ∈ listing ↔ ReflTransGen tree.IsParent start id := by
  refine ⟨fun hid => ?_, fun hbelow => ?_⟩
  · exact (hlisting.explores_start hforest).below id
      (List.mem_append_left _ (List.mem_reverse.mpr hid))
  · induction hbelow with
    | refl => exact hlisting.mem_of_mem (List.mem_singleton_self start)
    | tail _ hparent ih => exact hlisting.mem_of_isParent hforest ih hparent

/-- All listed cells exist, but for the start, which need not. -/
theorem length_le : listing.length ≤ tree.size + 1 := by
  have hexplores := hlisting.explores_start hforest
  have hnodup := hlisting.nodup hforest
  cases hlisting with
  | cons _ _ =>
      obtain ⟨hstart, hrest⟩ := List.nodup_cons.mp hnodup
      refine Nat.succ_le_succ (length_le_size hrest fun id hid => ?_)
      have hlisted := List.mem_append_left []
        (List.mem_reverse.mpr (List.mem_cons_of_mem start hid))
      obtain ⟨parent, _, hparent⟩ := hexplores.parent id hlisted (ne_of_mem_of_not_mem hid hstart)
      exact contains_of_isParent hparent

end Start

end Preorder

/-! Walking with a stack. -/

/-- A walk takes the last cell of its stack and puts the cell's children there, the first of them
last; once the stack is empty, it has visited these cells. -/
inductive Exhausts (tree : RegionTree) : List CellId → List CellId → Prop where
  | done : Exhausts tree [] []
  | visit {id : CellId} {stack visited : List CellId}
      (hnext : Exhausts tree (stack ++ (tree.children id).reverse) visited) :
      Exhausts tree (stack ++ [id]) (id :: visited)

theorem Preorder.exhausts (hlisting : tree.Preorder ids listing)
    (hstack : tree.Exhausts stack visited) :
    tree.Exhausts (stack ++ ids.reverse) (listing ++ visited) := by
  -- What lies deeper in the stack is not touched meanwhile, so it may be anything.
  induction hlisting generalizing stack visited with
  | nil => rwa [List.reverse_nil, List.append_nil, List.nil_append]
  | @cons id rest below after _ _ ihbelow ihafter =>
      have hbelow := ihbelow (ihafter hstack)
      rw [List.reverse_cons, ← List.append_assoc stack, List.cons_append, List.append_assoc below]
      exact .visit hbelow

theorem Exhausts.preorder (hexhausts : tree.Exhausts stack visited) :
    tree.Preorder stack.reverse visited := by
  induction hexhausts with
  | done => exact .nil
  | visit _ ih =>
      rw [List.reverse_append, List.reverse_reverse] at ih
      obtain ⟨below, after, hbelow, hafter, rfl⟩ := ih.exists_append
      rw [List.reverse_append]
      exact .cons hbelow hafter

theorem exhausts_iff : tree.Exhausts stack visited ↔ tree.Preorder stack.reverse visited := by
  refine ⟨Exhausts.preorder, fun hlisting => ?_⟩
  have hexhausts := hlisting.exhausts .done
  rwa [List.nil_append, List.reverse_reverse, List.append_nil] at hexhausts

/-! Subtrees of a forest. -/

namespace Forest

theorem exists_preorder (hforest : tree.Forest) (id : CellId) :
    ∃ listing, tree.Preorder [id] listing := by
  have hacyclic : Acyclic (Function.swap tree.IsParent) := fun node hcycle =>
    hforest.acyclic node (transGen_swap.mp hcycle)
  have hmembers : ∀ child parent, tree.IsParent parent child → parent ∈ tree.cellIds :=
    fun _ _ hparent => mem_cellIds (hforest.contains_parent hparent)
  -- From children to parents: the listings of its children are all that a cell's own waits for.
  refine hacyclic.induction (motive := fun id => ∃ listing, tree.Preorder [id] listing) hmembers
    (fun parent ih => ?_) id
  obtain ⟨below, hbelow⟩ := Preorder.exists_of_forall fun child hchild =>
    ih child ((hforest.mem_children_iff parent child).mp hchild)
  exact ⟨parent :: (below ++ []), .cons hbelow .nil⟩

theorem preorder_descend (hforest : tree.Forest) (id : CellId) (extra : Nat) :
    tree.Preorder [id] (tree.descend (tree.size + 1 + extra) [id]) := by
  obtain ⟨listing, hlisting⟩ := hforest.exists_preorder id
  rwa [hlisting.descend_eq (Nat.le_add_right_of_le (hlisting.length_le hforest))]

theorem preorder_subtree (hforest : tree.Forest) (id : CellId) :
    tree.Preorder [id] (tree.subtree id) :=
  hforest.preorder_descend id 0

/-- The walk through a subtree ends before its bound, which one step more for a cell that does not
exist accounts for. -/
theorem descend_size_add (hforest : tree.Forest) (id : CellId) (extra : Nat) :
    tree.descend (tree.size + 1 + extra) [id] = tree.subtree id :=
  (hforest.preorder_descend id extra).unique (hforest.preorder_subtree id)

theorem mem_subtree_iff (hforest : tree.Forest) :
    other ∈ tree.subtree id ↔ ReflTransGen tree.IsParent id other :=
  (hforest.preorder_subtree id).mem_iff hforest

theorem preorder_flatMap (hforest : tree.Forest) (ids : List CellId) :
    tree.Preorder ids (ids.flatMap tree.subtree) := by
  induction ids with
  | nil => exact .nil
  | cons id ids ih => exact (hforest.preorder_subtree id).append ih

theorem subtree_eq (hforest : tree.Forest) (id : CellId) :
    tree.subtree id = id :: (tree.children id).flatMap tree.subtree := by
  have hlisting := Preorder.cons (hforest.preorder_flatMap (tree.children id)) .nil
  rw [(hforest.preorder_subtree id).unique hlisting, List.append_nil]

end Forest

end RegionTree

end RegionLayout
