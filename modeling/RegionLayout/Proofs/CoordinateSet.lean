import Mathlib.Data.List.Sort
import RegionLayout.CoordinateSet

/-!
Sets of coordinates by their members. Both lists are in order of rank, so two sets with the same
members are one.
-/

namespace RegionLayout.CoordinateSet

theorem nodup (set : CoordinateSet) : set.toList.Nodup := by
  refine set.ascending.imp fun hless heq => ?_
  rw [heq] at hless
  exact Nat.lt_irrefl _ hless

theorem eq_of_mem_iff {left right : CoordinateSet} (hsame : ∀ id, id ∈ left ↔ id ∈ right) :
    left = right := by
  have hperm : left.toList.Perm right.toList :=
    (List.perm_ext_iff_of_nodup left.nodup right.nodup).mpr hsame
  have hlists : left.toList = right.toList :=
    hperm.eq_of_pairwise (fun _ _ _ _ hless hmore => absurd hless (Nat.lt_asymm hmore))
      left.ascending right.ascending
  cases left
  cases right
  congr

theorem ofList_eq_iff {first second : List CoordinateId} :
    ofList first = ofList second ↔ ∀ id, id ∈ first ↔ id ∈ second := by
  refine ⟨fun heq id => ?_, fun hsame => eq_of_mem_iff fun id => by simp [hsame]⟩
  rw [← mem_ofList, heq, mem_ofList]

theorem empty_union (set : CoordinateSet) : empty.union set = set :=
  eq_of_mem_iff fun id => by simp

end RegionLayout.CoordinateSet
