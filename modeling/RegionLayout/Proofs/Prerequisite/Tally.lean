import Mathlib.Data.List.Nodup
import RegionLayout.Prerequisite.Tally

/-!
Counts of a tally. In a valid tally a coordinate is a member exactly when its count is not zero;
applying a change subtracts its removals and adds its additions, and what comes back names exactly
the coordinates whose count left or reached zero on the way.
-/

namespace RegionLayout.PrerequisiteTally

/-- No member is held twice in the list, and each has a holder. -/
structure Valid (tally : PrerequisiteTally) : Prop where
  nodup : tally.members.Nodup
  positive : ∀ holding ∈ tally.holdings, 0 < holding.2

theorem Valid.empty : PrerequisiteTally.empty.Valid := by
  constructor <;> simp [PrerequisiteTally.empty, members]

section Count

variable {tally : PrerequisiteTally} {coordinate other : CoordinateId}

theorem find?_eq_none_of_not_mem (hnew : coordinate ∉ tally.members) :
    tally.holdings.find? (fun holding => holding.1 == coordinate) = none := by
  rw [List.find?_eq_none]
  intro holding hholding heq
  exact hnew (beq_iff_eq.mp heq ▸ List.mem_map_of_mem hholding)

theorem count_eq_zero_of_not_mem (hnew : coordinate ∉ tally.members) :
    tally.count coordinate = 0 := by
  rw [count, find?_eq_none_of_not_mem hnew]
  rfl

theorem mem_holdings_count (hmem : coordinate ∈ tally.members) :
    (coordinate, tally.count coordinate) ∈ tally.holdings := by
  obtain ⟨holding, hholding, rfl⟩ := List.mem_map.mp hmem
  cases hfound : tally.holdings.find? fun held => held.1 == holding.1 with
  | none =>
      rw [List.find?_eq_none] at hfound
      exact absurd (beq_self_eq_true _) (hfound holding hholding)
  | some found =>
      have hsame : found.1 = holding.1 := by simpa using List.find?_some hfound
      rw [count, hfound, ← hsame]
      exact List.mem_of_find?_eq_some hfound

theorem Valid.count_eq_zero_iff (hvalid : tally.Valid) :
    tally.count coordinate = 0 ↔ coordinate ∉ tally.members := by
  constructor
  · intro hzero hmem
    exact Nat.lt_irrefl 0 (hzero ▸ hvalid.positive _ (mem_holdings_count hmem))
  · exact count_eq_zero_of_not_mem

theorem Valid.mem_members_iff (hvalid : tally.Valid) :
    coordinate ∈ tally.members ↔ 0 < tally.count coordinate := by
  rw [Nat.pos_iff_ne_zero, ne_eq, hvalid.count_eq_zero_iff, Classical.not_not]

theorem find?_setCount (number : Nat) :
    (tally.setCount coordinate number).holdings.find? (fun holding => holding.1 == other) =
      (tally.holdings.find? fun holding => holding.1 == other).map fun holding =>
        if holding.1 = coordinate then (coordinate, number) else holding := by
  rw [setCount, List.find?_map]
  congr 2
  funext holding
  by_cases heq : holding.1 = coordinate <;> simp [heq]

theorem count_setCount (hmem : coordinate ∈ tally.members) (number : Nat) :
    (tally.setCount coordinate number).count other =
      if other = coordinate then number else tally.count other := by
  rw [count, find?_setCount, count]
  cases hfound : tally.holdings.find? fun holding => holding.1 == other with
  | none =>
      have hne : other ≠ coordinate := by
        rintro rfl
        obtain ⟨holding, hholding, heq⟩ := List.mem_map.mp hmem
        exact List.find?_eq_none.mp hfound holding hholding (by simpa using heq)
      simp [hne]
  | some found =>
      have hsame : found.1 = other := by simpa using List.find?_some hfound
      by_cases heq : other = coordinate <;> simp [hsame, heq]

theorem Valid.setCount (hvalid : tally.Valid) {number : Nat} (hpositive : 0 < number) :
    (tally.setCount coordinate number).Valid where
  nodup := by
    rw [members_setCount]
    exact hvalid.nodup
  positive := by
    intro holding hholding
    obtain ⟨old, hold, rfl⟩ := List.mem_map.mp hholding
    split
    · exact hpositive
    · exact hvalid.positive old hold

/-! One holder more or less. -/

theorem fst_acquire : (tally.acquire coordinate).1 = true ↔ coordinate ∉ tally.members := by
  unfold acquire
  split
  next hmem => simpa using hmem
  next hmem => simpa using hmem

theorem count_acquire : (tally.acquire coordinate).2.count other =
    tally.count other + if other = coordinate then 1 else 0 := by
  unfold acquire
  split
  next hmem =>
    rw [count_setCount (by simpa using hmem)]
    split
    next heq => rw [heq]
    next => rfl
  next hmem =>
    rw [count, List.find?_append, count]
    by_cases heq : other = coordinate
    · subst heq
      have hnone := find?_eq_none_of_not_mem (by simpa using hmem : other ∉ tally.members)
      simp [hnone]
    · simp [heq, Ne.symm heq]

theorem Valid.acquire (hvalid : tally.Valid) : (tally.acquire coordinate).2.Valid := by
  unfold PrerequisiteTally.acquire
  split
  next => exact hvalid.setCount (Nat.succ_pos _)
  next hmem =>
    constructor
    · rw [members, List.map_append]
      exact hvalid.nodup.append (List.nodup_singleton _) (by simpa [members] using hmem)
    · intro holding hholding
      rcases List.mem_append.mp hholding with hold | hlast
      · exact hvalid.positive holding hold
      · rw [List.mem_singleton.mp hlast]
        exact Nat.one_pos

theorem fst_release (hvalid : tally.Valid) :
    (tally.release coordinate).1 = true ↔ tally.count coordinate = 1 := by
  unfold release
  split
  next hmem =>
    have hpositive := hvalid.mem_members_iff.mp (by simpa using hmem)
    dsimp only
    split
    next hzero => exact iff_of_true rfl (by omega)
    next hmore => exact iff_of_false Bool.false_ne_true (by omega)
  next hmem =>
    have hzero := count_eq_zero_of_not_mem (by simpa using hmem : coordinate ∉ tally.members)
    exact iff_of_false Bool.false_ne_true (by omega)

theorem count_release : (tally.release coordinate).2.count other =
    tally.count other - if other = coordinate then 1 else 0 := by
  unfold release
  split
  next hmem =>
    dsimp only
    split
    next hzero =>
      by_cases heq : other = coordinate
      · subst heq
        rw [count_eq_zero_of_not_mem (by simp [members]), if_pos rfl, hzero]
      · rw [count, List.find?_filter, if_neg heq, Nat.sub_zero, count]
        congr 3
        funext holding
        by_cases hother : holding.1 = other
        · simp [hother, heq]
        · simp [hother]
    next =>
      rw [count_setCount (by simpa using hmem)]
      split
      next heq => rw [heq]
      next => rfl
  next hmem =>
    split
    next heq =>
      have hzero := count_eq_zero_of_not_mem (by simpa using hmem : coordinate ∉ tally.members)
      rw [heq, hzero]
    next => rfl

theorem Valid.release (hvalid : tally.Valid) : (tally.release coordinate).2.Valid := by
  unfold PrerequisiteTally.release
  split
  · dsimp only
    split
    next =>
      refine ⟨?_, fun holding hholding => hvalid.positive holding (List.mem_filter.mp hholding).1⟩
      exact hvalid.nodup.sublist (List.filter_sublist.map _)
    next hmore => exact hvalid.setCount (Nat.pos_of_ne_zero hmore)
  · exact hvalid

end Count

/-! Whole changes. -/

section Change

variable {tally : PrerequisiteTally} {coordinates : List CoordinateId} {other : CoordinateId}

theorem count_acquireAll (coordinates : List CoordinateId) (tally : PrerequisiteTally) :
    (acquireAll coordinates tally).2.count other =
      tally.count other + coordinates.count other := by
  induction coordinates generalizing tally with
  | nil => rfl
  | cons first rest ih =>
      simp only [acquireAll, ih, count_acquire, List.count_cons, beq_iff_eq, eq_comm (a := first)]
      omega

theorem Valid.acquireAll (hvalid : tally.Valid) : (acquireAll coordinates tally).2.Valid := by
  induction coordinates generalizing tally with
  | nil => exact hvalid
  | cons first rest ih => exact ih hvalid.acquire

theorem count_releaseAll (coordinates : List CoordinateId) (tally : PrerequisiteTally) :
    (releaseAll coordinates tally).2.count other =
      tally.count other - coordinates.count other := by
  induction coordinates generalizing tally with
  | nil => rfl
  | cons first rest ih =>
      simp only [releaseAll, ih, count_release, List.count_cons, beq_iff_eq, eq_comm (a := first)]
      omega

theorem Valid.releaseAll (hvalid : tally.Valid) : (releaseAll coordinates tally).2.Valid := by
  induction coordinates generalizing tally with
  | nil => exact hvalid
  | cons first rest ih => exact ih hvalid.release

theorem count_apply (tally : PrerequisiteTally) (change : PrerequisiteChange) :
    (tally.apply change).2.count other =
      tally.count other - change.removed.count other + change.added.count other := by
  simp only [apply, count_acquireAll, count_releaseAll]

theorem Valid.apply (hvalid : tally.Valid) (change : PrerequisiteChange) :
    (tally.apply change).2.Valid :=
  hvalid.releaseAll.acquireAll

/-! What is visible of a change. -/

theorem members_acquireAll (coordinates : List CoordinateId) (tally : PrerequisiteTally) :
    (acquireAll coordinates tally).2.members =
      tally.members ++ (acquireAll coordinates tally).1 := by
  induction coordinates generalizing tally with
  | nil => exact (List.append_nil _).symm
  | cons first rest ih =>
      simp only [acquireAll, ih, members_acquire, List.append_assoc]
      split <;> rfl

theorem members_releaseAll (coordinates : List CoordinateId) (tally : PrerequisiteTally) :
    (releaseAll coordinates tally).2.members =
      tally.members.filter fun member => !(releaseAll coordinates tally).1.contains member := by
  induction coordinates generalizing tally with
  | nil => exact (List.filter_eq_self.mpr fun _ _ => rfl).symm
  | cons first rest ih =>
      simp only [releaseAll, ih, members_release, List.filter_filter]
      apply List.filter_congr
      intro member _
      split
      next hflag => rw [hflag, Bool.true_and, List.contains_cons, Bool.not_or, Bool.and_comm]
      next hflag => rw [Bool.eq_false_iff.mpr hflag, Bool.false_and, Bool.not_false, Bool.and_true]

/-- A change takes out of the members what it visibly removes, and puts what it visibly adds after
the others. -/
theorem members_apply (tally : PrerequisiteTally) (change : PrerequisiteChange) :
    (tally.apply change).2.members =
      (tally.members.filter fun member => !(tally.apply change).1.removed.contains member) ++
        (tally.apply change).1.added := by
  simp only [apply, members_acquireAll, members_releaseAll]

theorem members_apply_of_isEmpty {change : PrerequisiteChange}
    (hhidden : (tally.apply change).1.isEmpty = true) :
    (tally.apply change).2.members = tally.members := by
  simp only [PrerequisiteChange.isEmpty, Bool.and_eq_true, List.isEmpty_iff] at hhidden
  rw [members_apply, hhidden.1, hhidden.2, List.append_nil]
  exact List.filter_eq_self.mpr fun _ _ => rfl

theorem fst_acquireAll (hnodup : coordinates.Nodup) :
    (acquireAll coordinates tally).1 = coordinates.filter fun coordinate =>
      decide (coordinate ∉ tally.members) := by
  induction coordinates generalizing tally with
  | nil => rfl
  | cons first rest ih =>
      obtain ⟨hfirst, hrest⟩ := List.nodup_cons.mp hnodup
      have hsame : ∀ other ∈ rest,
          (decide (other ∉ (tally.acquire first).2.members)) =
            decide (other ∉ tally.members) := by
        intro other hother
        have hne : other ≠ first := fun heq => hfirst (heq ▸ hother)
        rw [members_acquire]
        split <;> simp [hne]
      simp only [acquireAll, ih hrest, List.filter_congr hsame, List.filter_cons,
        decide_eq_true_eq, fst_acquire]

theorem fst_releaseAll (hvalid : tally.Valid) (hnodup : coordinates.Nodup) :
    (releaseAll coordinates tally).1 = coordinates.filter fun coordinate =>
      decide (tally.count coordinate = 1) := by
  induction coordinates generalizing tally with
  | nil => rfl
  | cons first rest ih =>
      obtain ⟨hfirst, hrest⟩ := List.nodup_cons.mp hnodup
      have hsame : ∀ other ∈ rest, decide ((tally.release first).2.count other = 1) =
          decide (tally.count other = 1) := by
        intro other hother
        have hne : other ≠ first := fun heq => hfirst (heq ▸ hother)
        rw [count_release, if_neg hne, Nat.sub_zero]
      simp only [releaseAll, ih hvalid.release hrest, List.filter_congr hsame, List.filter_cons,
        decide_eq_true_eq, fst_release hvalid]

end Change

end RegionLayout.PrerequisiteTally
