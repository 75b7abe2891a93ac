import RegionLayout.Proofs.CoordinateSet
import RegionLayout.Proofs.Length.Absorption

/-!
Sets of prerequisites that follow changes. Who keeps such a set takes out what a change removes and
puts in what it adds. A change that says exactly how one list came from another takes the one set to
the other; and changes that overlap do no harm if the last one ends where it should.
-/

namespace RegionLayout

namespace CoordinateSet

def remove (coordinate : CoordinateId) (set : CoordinateSet) : CoordinateSet :=
  ⟨set.toList.filter (· != coordinate), set.ascending.filter _⟩

@[simp] theorem mem_remove {coordinate other : CoordinateId} {set : CoordinateSet} :
    other ∈ set.remove coordinate ↔ other ∈ set ∧ other ≠ coordinate := by
  show other ∈ set.toList.filter (· != coordinate) ↔ _
  rw [List.mem_filter, bne_iff_ne]
  exact Iff.rfl

theorem mem_foldl_remove {coordinate : CoordinateId} {removed : List CoordinateId}
    {set : CoordinateSet} :
    coordinate ∈ removed.foldl (fun set coordinate => set.remove coordinate) set ↔
      coordinate ∈ set ∧ coordinate ∉ removed := by
  induction removed generalizing set with
  | nil => simp
  | cons head rest ih => simp [ih, and_assoc]

/-! One change. -/

/-- What is removed goes first, then what is added comes. -/
def revise (set : CoordinateSet) (change : PrerequisiteChange) : CoordinateSet :=
  change.added.foldl (fun set coordinate => set.insert coordinate)
    (change.removed.foldl (fun set coordinate => set.remove coordinate) set)

variable {set : CoordinateSet} {change : PrerequisiteChange} {coordinate : CoordinateId}
  {changes : List PrerequisiteChange} {before middle after : List CoordinateId}

theorem mem_revise : coordinate ∈ set.revise change ↔
    (coordinate ∈ set ∧ coordinate ∉ change.removed) ∨ coordinate ∈ change.added := by
  rw [revise, mem_foldl_insert, mem_foldl_remove]

theorem revise_of_exact (hexact : change.Exact before after) :
    (ofList before).revise change = ofList after := by
  refine eq_of_mem_iff fun id => ?_
  rw [mem_revise, mem_ofList, mem_ofList]
  by_cases hadded : id ∈ change.added
  · simp [hadded, (hexact.added id hadded).2]
  · by_cases hremoved : id ∈ change.removed
    · simp [hadded, hremoved, (hexact.removed id hremoved).2]
    · simp [hadded, hremoved, hexact.kept id hremoved hadded]

theorem revise_of_isEmpty (hempty : change.isEmpty = true) : set.revise change = set := by
  simp only [PrerequisiteChange.isEmpty, Bool.and_eq_true, List.isEmpty_iff] at hempty
  simp [revise, hempty.1, hempty.2]

theorem revise_idem : (set.revise change).revise change = set.revise change := by
  refine eq_of_mem_iff fun id => ?_
  simp only [mem_revise]
  by_cases hadded : id ∈ change.added <;> by_cases hremoved : id ∈ change.removed <;>
    simp [hadded, hremoved]

/-! Changes one after the other. -/

def reviseAll (set : CoordinateSet) (changes : List PrerequisiteChange) : CoordinateSet :=
  changes.foldl revise set

theorem reviseAll_append (first second : List PrerequisiteChange) :
    set.reviseAll (first ++ second) = (set.reviseAll first).reviseAll second :=
  List.foldl_append

theorem reviseAll_of_forall_eq (hne : changes ≠ []) (hall : ∀ other ∈ changes, other = change) :
    set.reviseAll changes = set.revise change := by
  induction changes generalizing set with
  | nil => exact absurd rfl hne
  | cons first rest ih =>
      obtain ⟨rfl, hrest⟩ := List.forall_mem_cons.mp hall
      rw [reviseAll, List.foldl_cons, ← reviseAll]
      by_cases hlast : rest = []
      · rw [hlast]
        rfl
      · rw [ih hlast hrest, revise_idem]

/-- Changes leave a coordinate where it was or determine where it ends, whatever set they revise. -/
theorem mem_reviseAll_cases (changes : List PrerequisiteChange) (coordinate : CoordinateId) :
    (∀ set : CoordinateSet, coordinate ∈ set.reviseAll changes ↔ coordinate ∈ set) ∨
      ∀ first second : CoordinateSet,
        coordinate ∈ first.reviseAll changes ↔ coordinate ∈ second.reviseAll changes := by
  induction changes with
  | nil => exact .inl fun _ => Iff.rfl
  | cons change rest ih =>
      rcases ih with hkept | hdetermined
      · by_cases hadded : coordinate ∈ change.added
        · refine .inr fun first second => ?_
          simp only [reviseAll, List.foldl_cons] at hkept ⊢
          simp [hkept, mem_revise, hadded]
        · by_cases hremoved : coordinate ∈ change.removed
          · refine .inr fun first second => ?_
            simp only [reviseAll, List.foldl_cons] at hkept ⊢
            simp [hkept, mem_revise, hadded, hremoved]
          · refine .inl fun set => ?_
            simp only [reviseAll, List.foldl_cons] at hkept ⊢
            simp [hkept, mem_revise, hadded, hremoved]
      · exact .inr fun first second => hdetermined (first.revise change) (second.revise change)

/-- Changes from a middle that a set never was at do no harm if the way from the set's own start to
their end is told after them. -/
theorem revise_between_reviseAll (hends : (ofList middle).reviseAll changes = ofList after) :
    ((ofList before).reviseAll changes).revise (.between before after) = ofList after := by
  refine eq_of_mem_iff fun id => ?_
  rw [mem_revise, PrerequisiteChange.mem_removed_between, PrerequisiteChange.mem_added_between,
    mem_ofList]
  have hmiddle : id ∈ (ofList middle).reviseAll changes ↔ id ∈ after := by rw [hends, mem_ofList]
  rcases mem_reviseAll_cases changes id with hkept | hdetermined
  · rw [hkept, mem_ofList]
    by_cases hbefore : id ∈ before <;> by_cases hafter : id ∈ after <;> simp [hbefore, hafter]
  · rw [hdetermined _ (ofList middle), hmiddle]
    by_cases hafter : id ∈ after <;> simp [hafter]

end CoordinateSet

end RegionLayout
