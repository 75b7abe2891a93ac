import RegionLayout.Position

/-!
Changes of a list of prerequisites. `between old new` names what `old` lacks and what `new` lacks,
each in its own order and as often as it is listed.
-/

namespace RegionLayout

structure PrerequisiteChange where
  added : List CoordinateId
  removed : List CoordinateId
  deriving DecidableEq, Repr

namespace PrerequisiteChange

def adding (coordinates : List CoordinateId) : PrerequisiteChange :=
  ⟨coordinates, []⟩

def removing (coordinates : List CoordinateId) : PrerequisiteChange :=
  ⟨[], coordinates⟩

def between (old new : List CoordinateId) : PrerequisiteChange where
  added := new.filter fun coordinate => !old.contains coordinate
  removed := old.filter fun coordinate => !new.contains coordinate

def isEmpty (change : PrerequisiteChange) : Bool :=
  change.added.isEmpty && change.removed.isEmpty

theorem mem_added_between {old new : List CoordinateId} {coordinate : CoordinateId} :
    coordinate ∈ (between old new).added ↔ coordinate ∈ new ∧ coordinate ∉ old := by
  simp [between]

theorem mem_removed_between {old new : List CoordinateId} {coordinate : CoordinateId} :
    coordinate ∈ (between old new).removed ↔ coordinate ∈ old ∧ coordinate ∉ new := by
  simp [between]

theorem isEmpty_between_iff {old new : List CoordinateId} :
    (between old new).isEmpty ↔ ∀ coordinate, coordinate ∈ old ↔ coordinate ∈ new := by
  simp only [isEmpty, Bool.and_eq_true, List.isEmpty_iff, List.eq_nil_iff_forall_not_mem,
    mem_added_between, mem_removed_between, not_and, Decidable.not_not]
  exact ⟨fun h coordinate => ⟨h.2 coordinate, h.1 coordinate⟩,
    fun h => ⟨fun coordinate => (h coordinate).mpr, fun coordinate => (h coordinate).mp⟩⟩

end PrerequisiteChange

end RegionLayout
