import RegionLayout.Proofs.Length.Presence
import RegionLayout.Proofs.Tree.Agreement

/-!
Presence of values in trees. Two trees in which only values moved fail and are absent at the same
coordinates, as far as what is read is present in the same.
-/

namespace RegionLayout.RegionTree

/-- A coordinate has a value exactly if its recipe comes to one. -/
def Founded (tree : RegionTree) (id : CoordinateId) : Prop :=
  ∃ value, tree.evaluate id = .ok value ∧ (tree.relative id).isSome = value.isSome

/-- No recipe below that of a coordinate takes the greatest of children that are equal and yet
differ. -/
def UnmixedBelow (tree : RegionTree) (id : CoordinateId) : Prop :=
  ∀ coordinate, tree.coordinate? id = some coordinate →
    ∀ lower bound, tree.network.BuiltOf coordinate.recipe lower →
      tree.network.formula? lower = some (.childrenMax bound) →
        Unmixed (bound.filterMap tree.relative)

variable {tree first second : RegionTree} {id : CoordinateId}

theorem CurrentUpToOrder.founded (hcurrent : tree.CurrentUpToOrder id) : tree.Founded id :=
  hcurrent.present

theorem CurrentUpToOrder.current (hcurrent : tree.CurrentUpToOrder id)
    (hunmixed : tree.UnmixedBelow id) : tree.Current id := by
  obtain ⟨coordinate, hcoordinate⟩ := hcurrent.order.exists_coordinate
  exact hcurrent.exact coordinate hcoordinate (hunmixed coordinate hcoordinate)

theorem Revalues.evaluate_samePresence (hfirst : Revalues tree first)
    (hsecond : Revalues tree second) (hsound : tree.Sound)
    (hsame : ∀ prerequisite ∈ tree.prerequisites id,
      (first.relative prerequisite).isSome = (second.relative prerequisite).isSome) :
    SamePresence (first.evaluate id) (second.evaluate id) := by
  cases hold : tree.coordinate? id with
  | none =>
      rw [hfirst.evaluate_of_none hold, hsecond.evaluate_of_none hold]
      exact .refl (fun _ => trivial) _
  | some coordinate =>
      rw [hfirst.evaluate_of_coordinate? hold, hsecond.evaluate_of_coordinate? hold]
      have hlaid := hsound.network.laid
      refine Network.value_samePresence hlaid.builtIn hlaid.older (hsound.covers_recipe hold)
        fun prerequisite hread => hsame prerequisite ?_
      exact (hsound.mem_prerequisites_iff hold).mpr hread

theorem Founded.isSome_eq (hfirst : first.Founded id) (hsecond : second.Founded id)
    (hsame : SamePresence (first.evaluate id) (second.evaluate id)) :
    (first.relative id).isSome = (second.relative id).isSome := by
  obtain ⟨value, hvalue, hpresent⟩ := hfirst
  obtain ⟨other, hother, hpresent'⟩ := hsecond
  obtain ⟨found, hfound, hboth⟩ := hsame.exists_ok hvalue
  rw [hother] at hfound
  rw [hpresent, hpresent', Except.ok.inj hfound, hboth]

end RegionLayout.RegionTree
