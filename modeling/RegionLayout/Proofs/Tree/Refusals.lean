import Mathlib.Data.List.Induction
import RegionLayout.Proofs.Tree.Stepwise

/-!
Refusals. A cell is not attached somewhere if one of six reasons holds, and the first of them is
given; it is not detached from where it does not hang. Nothing else stops an edit, and an edit that
is stopped leaves the tree as it was.
-/

namespace RegionLayout

open Relation

/-! Reasons in order. -/

/-- The answer that goes with the first of some reasons that holds. -/
inductive FirstOf {ε : Type} : List (Prop × ε) → ε → Prop where
  | here {reason : Prop} {answer : ε} {others : List (Prop × ε)} (hreason : reason) :
      FirstOf ((reason, answer) :: others) answer
  | later {reason : Prop} {answer other : ε} {others : List (Prop × ε)} (hreason : ¬ reason)
      (hothers : FirstOf others other) : FirstOf ((reason, answer) :: others) other

namespace FirstOf

variable {ε : Type} {reason : Prop} {answer other : ε} {others : List (Prop × ε)}

theorem cons_of_pos (hreason : reason) : FirstOf ((reason, answer) :: others) other ↔
    answer = other := by
  constructor
  · rintro (_ | ⟨hnot, _⟩)
    · rfl
    · exact absurd hreason hnot
  · rintro rfl
    exact .here hreason

theorem cons_of_neg (hreason : ¬ reason) : FirstOf ((reason, answer) :: others) other ↔
    FirstOf others other := by
  constructor
  · rintro (hheld | ⟨_, hothers⟩)
    · exact absurd hheld hreason
    · exact hothers
  · exact .later hreason

theorem not_nil : ¬ FirstOf [] other := nofun

/-- A check for one reason after another answers with the first. -/
theorem ite_error_iff {β : Type} {check : Prop} [Decidable check] {result : Except ε β}
    (hcheck : check ↔ reason) (hresult : result = .error other ↔ FirstOf others other) :
    (if check then .error answer else result) = .error other ↔
      FirstOf ((reason, answer) :: others) other := by
  by_cases hreason : reason
  · rw [if_pos (hcheck.mpr hreason), cons_of_pos hreason, Except.error.injEq]
  · rw [if_neg (mt hcheck.mp hreason), cons_of_neg hreason, hresult]

end FirstOf

namespace RegionTree

variable {tree : RegionTree} {parent child : CellId} {index : Nat}

/-- Why a cell is not attached somewhere, in the order in which the reasons are given. -/
def refusals (tree : RegionTree) (isRoot : CellId → Prop) (parent child : CellId) (index : Nat) :
    List (Prop × LayoutError) :=
  [(¬ tree.contains parent = true, .unknownCell parent),
    (¬ tree.contains child = true, .unknownCell child),
    (isRoot child, .pinnedRoot parent child),
    (child ∈ tree.children parent, .childAlreadyExists parent child),
    (ReflTransGen tree.IsParent child parent, .wouldNestInsideItself parent child),
    ((tree.children parent).length < index,
      .indexOutOfBounds parent index (tree.children parent).length)]

theorem insert_eq_error_iff (hforest : tree.Forest) {isRoot : CellId → Prop}
    (hroot : ∀ id, tree.isPinned id = true ↔ isRoot id) {failure : LayoutError} :
    tree.insert parent child index = .error failure ↔
      FirstOf (tree.refusals isRoot parent child index) failure := by
  have hplaceable : tree.insert parent child index = .error failure ↔
      tree.placeable parent child index = .error failure := by
    unfold RegionTree.insert
    split
    next hok => simp [hok]
    next cause hcause => simp [hcause]
  rw [hplaceable, placeable, refusals]
  cases habove : tree.cell? parent with
  | none =>
      rw [FirstOf.cons_of_pos (by simp [contains, habove])]
      exact iff_of_eq (Except.error.injEq _ _)
  | some above =>
      rw [FirstOf.cons_of_neg (by simp [contains, habove]), children_of_cell? habove]
      cases hbelow : tree.cell? child with
      | none =>
          rw [FirstOf.cons_of_pos (by simp [contains, hbelow])]
          exact iff_of_eq (Except.error.injEq _ _)
      | some below =>
          have hpinned : below.pinned = true ↔ isRoot child := by
            rw [← hroot, isPinned, hbelow, Option.any_some]
          have hinside : (parent = child ∨ child ∈ tree.ancestors parent) ↔
              ReflTransGen tree.IsParent child parent := by
            rw [hforest.mem_ancestors_iff, reflTransGen_iff_eq_or_transGen]
          rw [FirstOf.cons_of_neg (by simp [contains, hbelow])]
          exact FirstOf.ite_error_iff hpinned (FirstOf.ite_error_iff List.contains_iff_mem
            (FirstOf.ite_error_iff hinside (FirstOf.ite_error_iff Iff.rfl
              (iff_of_false (by simp) FirstOf.not_nil))))

theorem remove_eq_error_iff {failure : LayoutError} :
    tree.remove parent child = .error failure ↔
      FirstOf [(child ∉ tree.children parent, .childNotFound parent child)] failure := by
  unfold RegionTree.remove
  by_cases hchild : child ∈ tree.children parent
  · rw [if_pos (List.contains_iff_mem.mpr hchild), FirstOf.cons_of_neg (not_not.mpr hchild)]
    exact iff_of_false nofun FirstOf.not_nil
  · rw [if_neg (mt List.contains_iff_mem.mp hchild), FirstOf.cons_of_pos hchild,
      Except.error.injEq]

/-! Roots. -/

/-- A cell was made as a root. -/
def MadeAsRoot (operations : List TreeOperation) (id : CellId) : Prop :=
  ∃ earlier recipes later, operations = earlier ++ .createRoot recipes :: later ∧
    id = ((built earlier).createRoot recipes).1

theorem isPinned_of_perform {operation : TreeOperation} {id : CellId}
    (hpinned : (tree.perform operation).isPinned id = true) : tree.isPinned id = true ∨
      ∃ recipes, operation = .createRoot recipes ∧ id = (tree.createRoot recipes).1 := by
  cases operation with
  | createCell recipes =>
      rw [perform, createCell, isPinned_addCell] at hpinned
      split at hpinned
      next => contradiction
      next => exact .inl hpinned
  | createRoot recipes =>
      rw [perform, (sameLinks_createRoot tree recipes).isPinned, isPinned_addCell] at hpinned
      split at hpinned
      next hid => exact .inr ⟨recipes, rfl, hid⟩
      next => exact .inl hpinned
  | append parent child =>
      rw [perform, RegionTree.append,
        isPinned_attempt fun _ hdone => isPinned_insert hdone id] at hpinned
      exact .inl hpinned
  | insert parent child index =>
      rw [perform, isPinned_attempt fun _ hdone => isPinned_insert hdone id] at hpinned
      exact .inl hpinned
  | remove parent child =>
      rw [perform, isPinned_attempt fun _ hdone => isPinned_remove hdone id] at hpinned
      exact .inl hpinned
  | _ => exact .inl (((sameLinks_perform trivial).isPinned id).symm.trans hpinned)

theorem isPinned_built_iff (operations : List TreeOperation) (id : CellId) :
    (built operations).isPinned id = true ↔ MadeAsRoot operations id := by
  constructor
  · induction operations using List.reverseRecOn with
    | nil => exact nofun
    | append_singleton operations operation ih =>
        intro hpinned
        rw [built, List.foldl_append, List.foldl_cons, List.foldl_nil, ← built] at hpinned
        rcases isPinned_of_perform hpinned with hold | ⟨recipes, rfl, hid⟩
        · obtain ⟨earlier, recipes, later, rfl, hid⟩ := ih hold
          exact ⟨earlier, recipes, later ++ [operation], by simp, hid⟩
        · exact ⟨operations, recipes, [], rfl, hid⟩
  · rintro ⟨earlier, recipes, later, rfl, rfl⟩
    exact isPinned_built_root earlier later recipes

/-! Edits are refused or completed. -/

/-- Any edit that moves a cell is refused for the first reason that holds, or goes through. Taken
step by step it does the same, and where it is refused no step has changed anything. -/
theorem refused_or_completed (operations : List TreeOperation) (parent child : CellId) :
    (∀ index,
      (∀ failure, (built operations).insert parent child index = .error failure ↔
        FirstOf ((built operations).refusals (MadeAsRoot operations) parent child index)
          failure) ∧
      (Stepwise.insert parent child index).result (built operations) =
        Stepwise.whole (built operations) ((built operations).insert parent child index)) ∧
    ((built operations).append parent child = (built operations).insert parent child
        ((built operations).children parent).length ∧
      (Stepwise.append parent child).result (built operations) =
        Stepwise.whole (built operations) ((built operations).append parent child)) ∧
    (∀ failure, (built operations).remove parent child = .error failure ↔
      FirstOf [(child ∉ (built operations).children parent, .childNotFound parent child)]
        failure) ∧
    (Stepwise.remove parent child).result (built operations) =
      Stepwise.whole (built operations) ((built operations).remove parent child) := by
  have hforest := forest_built operations
  refine ⟨fun index => ⟨fun failure => ?_, ?_⟩, ⟨rfl, ?_⟩, fun failure => ?_, ?_⟩
  · exact insert_eq_error_iff hforest (isPinned_built_iff operations)
  · exact Stepwise.result_insert hforest parent child index
  · exact Stepwise.result_append hforest parent child
  · exact remove_eq_error_iff
  · exact Stepwise.result_remove hforest parent child

end RegionTree

end RegionLayout
