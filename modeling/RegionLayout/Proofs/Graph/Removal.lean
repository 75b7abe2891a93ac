import RegionLayout.Proofs.Graph.Reachability

/-!
Removal from prerequisite graphs. The slot of a removed node becomes vacant, its number goes from
every list of neighbours, and all other slots keep what they hold; so nothing is left of the node
for whoever takes its slot next.
-/

namespace RegionLayout

namespace Slot

variable {α : Type}

/-- A slot after a neighbour was removed. -/
def without (slot : Slot α) (index : Nat) : Slot α :=
  { slot with
    prerequisites := slot.prerequisites.filter (· ≠ index)
    dependents := slot.dependents.filter (· ≠ index) }

@[simp] theorem node_without (slot : Slot α) (index : Nat) :
    (slot.without index).node = slot.node := rfl

theorem ite_mem_filter (index : Nat) (places : List Nat) :
    (if index ∈ places then places.filter (· ≠ index) else places) =
      places.filter (· ≠ index) := by
  split
  next => rfl
  next hmissing =>
    refine (List.filter_eq_self.mpr fun place hplace => ?_).symm
    rw [decide_eq_true_eq]
    rintro rfl
    exact hmissing hplace

end Slot

namespace Graph

variable {α : Type}

/-! Several slots that are changed alike. -/

theorem slot?_foldl_edit {change : Slot α → Slot α}
    (hagain : ∀ slot, change (change slot) = change slot) (places : List Nat) (graph : Graph α)
    (other : Nat) :
    (places.foldl (fun graph place => graph.edit place change) graph).slot? other =
      if other ∈ places then (graph.slot? other).map change else graph.slot? other := by
  induction places generalizing graph with
  | nil => rfl
  | cons place places ih =>
      rw [List.foldl_cons, ih, slot?_edit]
      by_cases heq : place = other
      · cases graph.slot? other <;> simp [heq, hagain]
      · simp [heq, Ne.symm heq]

theorem keeps_foldl_edit (change : Slot α → Slot α) (places : List Nat) (graph : Graph α) :
    let changed := places.foldl (fun graph place => graph.edit place change) graph
    changed.index = graph.index ∧ changed.vacant = graph.vacant ∧
      changed.slots.size = graph.slots.size := by
  induction places generalizing graph with
  | nil => exact ⟨rfl, rfl, rfl⟩
  | cons place places ih =>
      obtain ⟨hindex, hvacant, hsize⟩ := ih (graph.edit place change)
      exact ⟨hindex, hvacant, hsize.trans (slots_size_edit graph place change)⟩

theorem slot?_disconnect (graph : Graph α) (index : Nat) (slot : Slot α) (other : Nat) :
    (graph.disconnect index slot).slot? other = (graph.slot? other).map fun held =>
      { held with
        prerequisites := if other ∈ slot.dependents then
          held.prerequisites.filter (· ≠ index) else held.prerequisites
        dependents := if other ∈ slot.prerequisites then
          held.dependents.filter (· ≠ index) else held.dependents } := by
  rw [disconnect, slot?_foldl_edit, slot?_foldl_edit]
  · cases graph.slot? other <;> split <;> split <;> rfl
  all_goals simp

/-! The graph that is left. -/

section

variable [DecidableEq α]

/-- `other` is `graph` without what the slot `index` held. -/
structure Removes (graph other : Graph α) (index : Nat) (node : α) : Prop where
  slot : ∀ place, other.slot? place =
    if place = index then none else (graph.slot? place).map (·.without index)
  vacant : other.vacant = index :: graph.vacant
  size : other.slots.size = graph.slots.size
  index : other.index = graph.index.filter fun entry => entry.1 ≠ node

namespace Removes

variable {graph other : Graph α} {index : Nat} {node : α}

theorem holds_iff (hremoves : Removes graph other index node) {place : Nat} {held : α} :
    other.Holds place held ↔ place ≠ index ∧ graph.Holds place held := by
  rw [holds_iff_map, holds_iff_map, hremoves.slot]
  by_cases heq : place = index
  · simp [heq]
  · cases graph.slot? place <;> simp [heq]

theorem neighbours_eq (hremoves : Removes graph other index node) {neighbours : Slot α → List Nat}
    (hwithout : ∀ slot : Slot α,
      neighbours (slot.without index) = (neighbours slot).filter (· ≠ index)) (place : Nat) :
    ((other.slot? place).map neighbours).getD [] = if place = index then []
      else (((graph.slot? place).map neighbours).getD []).filter (· ≠ index) := by
  rw [hremoves.slot]
  split
  next => rfl
  next =>
    cases graph.slot? place with
    | none => rfl
    | some slot => exact hwithout slot

theorem prerequisiteSlots_eq (hremoves : Removes graph other index node) (place : Nat) :
    other.prerequisiteSlots place =
      if place = index then [] else (graph.prerequisiteSlots place).filter (· ≠ index) :=
  hremoves.neighbours_eq (fun _ => rfl) place

theorem dependentSlots_eq (hremoves : Removes graph other index node) (place : Nat) :
    other.dependentSlots place =
      if place = index then [] else (graph.dependentSlots place).filter (· ≠ index) :=
  hremoves.neighbours_eq (fun _ => rfl) place

theorem feeds_iff (hremoves : Removes graph other index node) {source target : Nat} :
    other.Feeds source target ↔
      graph.Feeds source target ∧ source ≠ index ∧ target ≠ index := by
  rw [Feeds, hremoves.prerequisiteSlots_eq]
  split
  next heq => simp [heq]
  next hne => simp [Feeds, hne]

theorem mem_dependentSlots_iff (hremoves : Removes graph other index node) {source target : Nat} :
    target ∈ other.dependentSlots source ↔
      target ∈ graph.dependentSlots source ∧ source ≠ index ∧ target ≠ index := by
  rw [hremoves.dependentSlots_eq]
  split
  next heq => simp [heq]
  next hne => simp [hne]

theorem sound (hremoves : Removes graph other index node) (hsound : graph.Sound)
    (hholds : graph.Holds index node) : other.Sound where
  index_nodup := by
    rw [hremoves.index]
    exact hsound.index_nodup.sublist (List.filter_sublist.map Prod.fst)
  mem_index_iff := by
    intro held place
    rw [hremoves.index, hremoves.holds_iff, List.mem_filter, hsound.mem_index_iff, and_comm]
    refine and_congr_left fun hheld => ?_
    have hsame : held = node ↔ place = index := by
      constructor
      · rintro rfl
        exact hsound.holds_unique hheld hholds
      · rintro rfl
        exact hheld.node_unique hholds
    simpa using not_congr hsame
  feeds_iff := by
    intro source target
    rw [hremoves.feeds_iff, hremoves.mem_dependentSlots_iff, hsound.feeds_iff]
  prerequisites_nodup := by
    intro place
    rw [hremoves.prerequisiteSlots_eq]
    split
    next => exact List.nodup_nil
    next => exact (hsound.prerequisites_nodup place).filter _
  dependents_nodup := by
    intro place
    rw [hremoves.dependentSlots_eq]
    split
    next => exact List.nodup_nil
    next => exact (hsound.dependents_nodup place).filter _
  vacant_nodup := by
    rw [hremoves.vacant, List.nodup_cons]
    obtain ⟨slot, hslot, _⟩ := hholds
    refine ⟨fun hmem => ?_, hsound.vacant_nodup⟩
    simp [(hsound.mem_vacant_iff.mp hmem).2] at hslot
  mem_vacant_iff := by
    intro place
    rw [hremoves.vacant, hremoves.size, hremoves.slot, List.mem_cons, hsound.mem_vacant_iff]
    by_cases heq : place = index
    · simp [heq, hholds.lt]
    · simp [heq]
  acyclic := hsound.acyclic.mono fun _ _ hfeeds => (hremoves.feeds_iff.mp hfeeds).1

theorem has_iff (hremoves : Removes graph other index node) (hsound : graph.Sound)
    (hholds : graph.Holds index node) {held : α} :
    other.Has held ↔ graph.Has held ∧ held ≠ node := by
  constructor
  · rintro ⟨place, hplace⟩
    obtain ⟨hapart, hheld⟩ := hremoves.holds_iff.mp hplace
    refine ⟨⟨place, hheld⟩, ?_⟩
    rintro rfl
    exact hapart (hsound.holds_unique hheld hholds)
  · rintro ⟨⟨place, hheld⟩, hapart⟩
    refine ⟨place, hremoves.holds_iff.mpr ⟨?_, hheld⟩⟩
    rintro rfl
    exact hapart (hheld.node_unique hholds)

theorem edge_iff (hremoves : Removes graph other index node) (hsound : graph.Sound)
    (hholds : graph.Holds index node) {prerequisite dependent : α} :
    other.Edge prerequisite dependent ↔
      graph.Edge prerequisite dependent ∧ prerequisite ≠ node ∧ dependent ≠ node := by
  constructor
  · intro hedge
    have hsource := ((hremoves.has_iff hsound hholds).mp hedge.has_left).2
    have htarget := ((hremoves.has_iff hsound hholds).mp hedge.has_right).2
    obtain ⟨source, target, hfirst, hsecond, hfeeds⟩ := hedge
    exact ⟨⟨source, target, (hremoves.holds_iff.mp hfirst).2, (hremoves.holds_iff.mp hsecond).2,
      (hremoves.feeds_iff.mp hfeeds).1⟩, hsource, htarget⟩
  · rintro ⟨⟨source, target, hfirst, hsecond, hfeeds⟩, hsource, htarget⟩
    have hapart : ∀ {place held}, graph.Holds place held → held ≠ node → place ≠ index := by
      rintro _ held hheld hne rfl
      exact hne (hheld.node_unique hholds)
    have hleft := hapart hfirst hsource
    have hright := hapart hsecond htarget
    exact ⟨source, target, hremoves.holds_iff.mpr ⟨hleft, hfirst⟩,
      hremoves.holds_iff.mpr ⟨hright, hsecond⟩, hremoves.feeds_iff.mpr ⟨hfeeds, hleft, hright⟩⟩

end Removes

end

/-! Removing a node. -/

/-- The slots that are edited are all that know the removed one. -/
theorem slot?_vacate {graph : Graph α} {index : Nat} {slot : Slot α}
    (hfeeds : ∀ source target, graph.Feeds source target ↔ target ∈ graph.dependentSlots source)
    (hslot : graph.slot? index = some slot) (place : Nat) :
    (graph.vacate index slot).slot? place =
      if place = index then none else (graph.slot? place).map (·.without index) := by
  let cleared : Graph α := { graph with slots := graph.slots.setIfInBounds index none }
  have hcleared : cleared.slot? place = if place = index then none else graph.slot? place := by
    simp only [cleared, slot?, Array.getElem?_setIfInBounds, eq_comm (a := index)]
    split
    next heq => split <;> rfl
    next => rfl
  change (cleared.disconnect index slot).slot? place = _
  rw [slot?_disconnect, hcleared]
  by_cases heq : place = index
  · simp [heq]
  cases hheld : graph.slot? place with
  | none => simp
  | some held =>
      have hreader : place ∈ slot.dependents ↔ index ∈ held.prerequisites := by
        have hiff := hfeeds index place
        simpa [Feeds, prerequisiteSlots, dependentSlots, hheld, hslot] using hiff.symm
      have hread : place ∈ slot.prerequisites ↔ index ∈ held.dependents := by
        have hiff := hfeeds place index
        simpa [Feeds, prerequisiteSlots, dependentSlots, hheld, hslot] using hiff
      simp only [if_neg heq, Option.map_some, hreader, hread, Slot.ite_mem_filter, Slot.without]

theorem keeps_vacate (graph : Graph α) (index : Nat) (slot : Slot α) :
    (graph.vacate index slot).index = graph.index ∧
      (graph.vacate index slot).vacant = index :: graph.vacant ∧
      (graph.vacate index slot).slots.size = graph.slots.size := by
  simp [vacate, disconnect, keeps_foldl_edit]

section

variable [DecidableEq α] {graph : Graph α}

theorem removes_removeNode (hsound : graph.Sound) {index : Nat} {node : α}
    (hholds : graph.Holds index node) :
    Removes graph (graph.removeNode node).2 index node := by
  have hfound : graph.indexOf? node = some index := (indexOf?_eq_some_iff hsound).mpr hholds
  obtain ⟨slot, hslot, _⟩ := hholds
  have hslot : (graph.forget node).slot? index = some slot := hslot
  have hresult : (graph.removeNode node).2 = (graph.forget node).vacate index slot := by
    simp [removeNode, hfound, hslot]
  obtain ⟨hindex, hvacant, hsize⟩ := keeps_vacate (graph.forget node) index slot
  rw [hresult]
  exact ⟨slot?_vacate (fun _ _ => hsound.feeds_iff) hslot, hvacant, hsize, hindex⟩

theorem removeNode_of_not_has (hsound : graph.Sound) {node : α} (habsent : ¬ graph.Has node) :
    graph.removeNode node = (false, graph) := by
  rw [removeNode, (indexOf?_eq_none_iff hsound).mpr habsent]

theorem Sound.removeNode (hsound : graph.Sound) (node : α) : (graph.removeNode node).2.Sound := by
  by_cases hhas : graph.Has node
  · obtain ⟨index, hholds⟩ := hhas
    exact (removes_removeNode hsound hholds).sound hsound hholds
  · rwa [removeNode_of_not_has hsound hhas]

theorem has_removeNode (hsound : graph.Sound) (node : α) {held : α} :
    (graph.removeNode node).2.Has held ↔ graph.Has held ∧ held ≠ node := by
  by_cases hhas : graph.Has node
  · obtain ⟨index, hholds⟩ := hhas
    exact (removes_removeNode hsound hholds).has_iff hsound hholds
  · rw [removeNode_of_not_has hsound hhas, iff_self_and]
    rintro hheld rfl
    exact hhas hheld

/-- A removal takes the edges at its node and no other. -/
theorem edge_removeNode (hsound : graph.Sound) (node : α) {prerequisite dependent : α} :
    (graph.removeNode node).2.Edge prerequisite dependent ↔
      graph.Edge prerequisite dependent ∧ prerequisite ≠ node ∧ dependent ≠ node := by
  by_cases hhas : graph.Has node
  · obtain ⟨index, hholds⟩ := hhas
    exact (removes_removeNode hsound hholds).edge_iff hsound hholds
  · rw [removeNode_of_not_has hsound hhas, iff_self_and]
    intro hedge
    constructor
    · rintro rfl
      exact hhas hedge.has_left
    · rintro rfl
      exact hhas hedge.has_right

end

end Graph

end RegionLayout
