import Mathlib.Data.List.Nodup
import RegionLayout.Graph.Basic
import RegionLayout.Proofs.Acyclic

/-!
Edges of prerequisite graphs. In a sound graph the index lists every node once and with the slot
that holds it, both directions of the edges agree, the vacant slots are exactly those listed, and no
node depends on itself.
-/

namespace RegionLayout.Graph

open Relation

variable {α : Type}

/-- A node sits in a slot. -/
def Holds (graph : Graph α) (index : Nat) (node : α) : Prop :=
  ∃ slot, graph.slot? index = some slot ∧ slot.node = node

/-- One slot is a prerequisite of another. -/
def Feeds (graph : Graph α) (source target : Nat) : Prop :=
  source ∈ graph.prerequisiteSlots target

instance (graph : Graph α) (source target : Nat) : Decidable (graph.Feeds source target) :=
  inferInstanceAs (Decidable (source ∈ graph.prerequisiteSlots target))

def Has (graph : Graph α) (node : α) : Prop :=
  ∃ index, graph.Holds index node

/-- One node is a prerequisite of another. -/
def Edge (graph : Graph α) (prerequisite dependent : α) : Prop :=
  ∃ source target, graph.Holds source prerequisite ∧ graph.Holds target dependent ∧
    graph.Feeds source target

structure Sound (graph : Graph α) : Prop where
  index_nodup : (graph.index.map Prod.fst).Nodup
  mem_index_iff : ∀ {node index}, (node, index) ∈ graph.index ↔ graph.Holds index node
  feeds_iff : ∀ {source target}, graph.Feeds source target ↔ target ∈ graph.dependentSlots source
  prerequisites_nodup : ∀ index, (graph.prerequisiteSlots index).Nodup
  dependents_nodup : ∀ index, (graph.dependentSlots index).Nodup
  vacant_nodup : graph.vacant.Nodup
  mem_vacant_iff : ∀ {index}, index ∈ graph.vacant ↔
    index < graph.slots.size ∧ graph.slot? index = none
  acyclic : Acyclic graph.Feeds

/-! Slots after a change. -/

theorem slot?_eq_some_lt {graph : Graph α} {index : Nat} {slot : Slot α}
    (hslot : graph.slot? index = some slot) : index < graph.slots.size := by
  by_contra hge
  simp [slot?, Array.getElem?_eq_none (Nat.le_of_not_lt hge)] at hslot

theorem prerequisiteSlots_of_slot? {graph : Graph α} {index : Nat} {slot : Slot α}
    (hslot : graph.slot? index = some slot) :
    graph.prerequisiteSlots index = slot.prerequisites := by
  simp [prerequisiteSlots, hslot]

theorem dependentSlots_of_slot? {graph : Graph α} {index : Nat} {slot : Slot α}
    (hslot : graph.slot? index = some slot) : graph.dependentSlots index = slot.dependents := by
  simp [dependentSlots, hslot]

theorem Holds.lt {graph : Graph α} {index : Nat} {node : α} (hholds : graph.Holds index node) :
    index < graph.slots.size := by
  obtain ⟨slot, hslot, _⟩ := hholds
  exact slot?_eq_some_lt hslot

theorem Holds.node_unique {graph : Graph α} {index : Nat} {first second : α}
    (hfirst : graph.Holds index first) (hsecond : graph.Holds index second) : first = second := by
  obtain ⟨slot, hslot, rfl⟩ := hfirst
  obtain ⟨other, hother, rfl⟩ := hsecond
  rw [hslot] at hother
  rw [Option.some.inj hother]

theorem slot?_edit (graph : Graph α) (index other : Nat) (change : Slot α → Slot α) :
    (graph.edit index change).slot? other =
      if index = other then (graph.slot? other).map change else graph.slot? other := by
  simp only [slot?, edit, Array.getElem?_modify]
  split
  · cases graph.slots[other]? <;> simp
  · rfl

@[simp] theorem slots_size_edit (graph : Graph α) (index : Nat) (change : Slot α → Slot α) :
    (graph.edit index change).slots.size = graph.slots.size := by
  simp [edit]

@[simp] theorem index_edit (graph : Graph α) (index : Nat) (change : Slot α → Slot α) :
    (graph.edit index change).index = graph.index := rfl

@[simp] theorem vacant_edit (graph : Graph α) (index : Nat) (change : Slot α → Slot α) :
    (graph.edit index change).vacant = graph.vacant := rfl

theorem node_edit (graph : Graph α) (index other : Nat) {change : Slot α → Slot α}
    (hnode : ∀ slot, (change slot).node = slot.node) :
    ((graph.edit index change).slot? other).map (·.node) = (graph.slot? other).map (·.node) := by
  rw [slot?_edit]
  split
  · cases graph.slot? other <;> simp [hnode]
  · rfl

theorem holds_iff_map {graph : Graph α} {index : Nat} {node : α} :
    graph.Holds index node ↔ (graph.slot? index).map (·.node) = some node := by
  simp [Holds]

section EditLists

variable (graph : Graph α) (index other : Nat) {change : Slot α → Slot α}
  {f : List Nat → List Nat}

/-- A list of a slot's neighbours, in either direction. An empty slot lists none, so that its list
changes only if the slot is occupied. -/
theorem neighbours_edit {neighbours : Slot α → List Nat}
    (hchange : ∀ slot, neighbours (change slot) = f (neighbours slot))
    (hdefined : f [] = [] ∨ ∃ node, graph.Holds index node) :
    (((graph.edit index change).slot? other).map neighbours).getD [] =
      if index = other then f (((graph.slot? other).map neighbours).getD [])
      else ((graph.slot? other).map neighbours).getD [] := by
  rw [slot?_edit]
  split
  next heq =>
    subst heq
    cases hslot : graph.slot? index with
    | none =>
        rcases hdefined with hempty | ⟨node, slot, hsome, _⟩
        · exact hempty.symm
        · rw [hslot] at hsome
          contradiction
    | some slot => exact hchange slot
  next => rfl

theorem prerequisiteSlots_edit
    (hchange : ∀ slot, (change slot).prerequisites = f slot.prerequisites)
    (hdefined : f [] = [] ∨ ∃ node, graph.Holds index node) :
    (graph.edit index change).prerequisiteSlots other =
      if index = other then f (graph.prerequisiteSlots other)
      else graph.prerequisiteSlots other :=
  neighbours_edit graph index other hchange hdefined

theorem dependentSlots_edit (hchange : ∀ slot, (change slot).dependents = f slot.dependents)
    (hdefined : f [] = [] ∨ ∃ node, graph.Holds index node) :
    (graph.edit index change).dependentSlots other =
      if index = other then f (graph.dependentSlots other)
      else graph.dependentSlots other :=
  neighbours_edit graph index other hchange hdefined

theorem prerequisiteSlots_edit_same
    (hchange : ∀ slot, (change slot).prerequisites = slot.prerequisites) :
    (graph.edit index change).prerequisiteSlots other = graph.prerequisiteSlots other := by
  simpa using prerequisiteSlots_edit graph index other (f := id) hchange (.inl rfl)

theorem dependentSlots_edit_same (hchange : ∀ slot, (change slot).dependents = slot.dependents) :
    (graph.edit index change).dependentSlots other = graph.dependentSlots other := by
  simpa using dependentSlots_edit graph index other (f := id) hchange (.inl rfl)

end EditLists

theorem exists_holds_of_mem_dependentSlots {graph : Graph α} {source target : Nat}
    (hmem : target ∈ graph.dependentSlots source) : ∃ node, graph.Holds source node := by
  cases hslot : graph.slot? source with
  | none => simp [dependentSlots, hslot] at hmem
  | some slot => exact ⟨slot.node, slot, hslot, rfl⟩

theorem Feeds.exists_target {graph : Graph α} {source target : Nat}
    (hfeeds : graph.Feeds source target) : ∃ node, graph.Holds target node := by
  cases hslot : graph.slot? target with
  | none => simp [Feeds, prerequisiteSlots, hslot] at hfeeds
  | some slot => exact ⟨slot.node, slot, hslot, rfl⟩

theorem Feeds.target_lt {graph : Graph α} {source target : Nat}
    (hfeeds : graph.Feeds source target) : target < graph.slots.size :=
  let ⟨_, hholds⟩ := hfeeds.exists_target
  hholds.lt

theorem Feeds.exists_source {graph : Graph α} (hsound : graph.Sound) {source target : Nat}
    (hfeeds : graph.Feeds source target) : ∃ node, graph.Holds source node :=
  exists_holds_of_mem_dependentSlots (hsound.feeds_iff.mp hfeeds)

/-! Edges between nodes are edges between their slots. -/

namespace Sound

variable {graph : Graph α}

theorem holds_unique (hsound : graph.Sound) {first second : Nat} {node : α}
    (hfirst : graph.Holds first node) (hsecond : graph.Holds second node) : first = second :=
  congrArg Prod.snd (List.inj_on_of_nodup_map hsound.index_nodup
    (hsound.mem_index_iff.mpr hfirst) (hsound.mem_index_iff.mpr hsecond) rfl)

theorem edge_iff_feeds (hsound : graph.Sound) {source target : Nat} {prerequisite dependent : α}
    (hsource : graph.Holds source prerequisite) (htarget : graph.Holds target dependent) :
    graph.Edge prerequisite dependent ↔ graph.Feeds source target := by
  constructor
  · rintro ⟨first, second, hfirst, hsecond, hfeeds⟩
    obtain rfl := hsound.holds_unique hfirst hsource
    obtain rfl := hsound.holds_unique hsecond htarget
    exact hfeeds
  · intro hfeeds
    exact ⟨source, target, hsource, htarget, hfeeds⟩

theorem reflTransGen_edge_iff (hsound : graph.Sound) {source target : Nat}
    {prerequisite dependent : α} (hsource : graph.Holds source prerequisite)
    (htarget : graph.Holds target dependent) :
    ReflTransGen graph.Edge prerequisite dependent ↔ ReflTransGen graph.Feeds source target := by
  constructor
  · intro hpath
    induction hpath generalizing target with
    | refl =>
        obtain rfl := hsound.holds_unique hsource htarget
        exact .refl
    | tail _ hedge ih =>
        obtain ⟨first, second, hfirst, hsecond, hfeeds⟩ := hedge
        obtain rfl := hsound.holds_unique hsecond htarget
        exact (ih hfirst).tail hfeeds
  · intro hpath
    induction hpath generalizing dependent with
    | refl =>
        obtain rfl := hsource.node_unique htarget
        exact .refl
    | tail _ hfeeds ih =>
        obtain ⟨node, hnode⟩ := hfeeds.exists_source hsound
        exact (ih hnode).tail ⟨_, _, hnode, htarget, hfeeds⟩

theorem transGen_edge_iff (hsound : graph.Sound) {source target : Nat}
    {prerequisite dependent : α} (hsource : graph.Holds source prerequisite)
    (htarget : graph.Holds target dependent) :
    TransGen graph.Edge prerequisite dependent ↔ TransGen graph.Feeds source target := by
  rw [TransGen.tail'_iff, TransGen.tail'_iff]
  constructor
  · rintro ⟨node, hpath, first, second, hfirst, hsecond, hfeeds⟩
    obtain rfl := hsound.holds_unique hsecond htarget
    exact ⟨first, (hsound.reflTransGen_edge_iff hsource hfirst).mp hpath, hfeeds⟩
  · rintro ⟨middle, hpath, hfeeds⟩
    obtain ⟨node, hnode⟩ := hfeeds.exists_source hsound
    exact ⟨node, (hsound.reflTransGen_edge_iff hsource hnode).mpr hpath,
      (hsound.edge_iff_feeds hnode htarget).mpr hfeeds⟩

theorem edge_acyclic (hsound : graph.Sound) : Acyclic graph.Edge := by
  intro node hcycle
  obtain ⟨_, ⟨source, _, hsource, _, _⟩, _⟩ := TransGen.head'_iff.mp hcycle
  exact hsound.acyclic source ((hsound.transGen_edge_iff hsource hsource).mp hcycle)

end Sound

theorem Edge.has_left {graph : Graph α} {prerequisite dependent : α}
    (hedge : graph.Edge prerequisite dependent) : graph.Has prerequisite :=
  let ⟨source, _, hsource, _⟩ := hedge
  ⟨source, hsource⟩

theorem Edge.has_right {graph : Graph α} {prerequisite dependent : α}
    (hedge : graph.Edge prerequisite dependent) : graph.Has dependent :=
  let ⟨_, target, _, htarget, _⟩ := hedge
  ⟨target, htarget⟩

theorem has_of_transGen {graph : Graph α} {first second : α}
    (hpath : TransGen graph.Edge first second) : graph.Has first ∧ graph.Has second := by
  obtain ⟨_, hfirst, _⟩ := TransGen.head'_iff.mp hpath
  obtain ⟨_, _, hlast⟩ := TransGen.tail'_iff.mp hpath
  exact ⟨hfirst.has_left, hlast.has_right⟩

/-! Looking a node up. -/

section Lookup

variable [DecidableEq α]

theorem indexOf?_eq_some_iff {graph : Graph α} (hsound : graph.Sound) {node : α} {index : Nat} :
    graph.indexOf? node = some index ↔ graph.Holds index node := by
  rw [← hsound.mem_index_iff]
  constructor
  · intro hfound
    obtain ⟨first, rest, hindex, _⟩ := List.lookup_eq_some_iff.mp hfound
    simp [hindex]
  · intro hmem
    cases hfound : graph.indexOf? node with
    | none => simpa using List.lookup_eq_none_iff.mp hfound _ hmem
    | some other =>
        obtain ⟨first, rest, hindex, _⟩ := List.lookup_eq_some_iff.mp hfound
        have hother : (node, other) ∈ graph.index := by simp [hindex]
        rw [hsound.holds_unique (hsound.mem_index_iff.mp hother) (hsound.mem_index_iff.mp hmem)]

theorem indexOf?_sound {graph : Graph α} (hsound : graph.Sound) {node : α} {index : Nat}
    (hindex : graph.indexOf? node = some index) : graph.Holds index node :=
  (indexOf?_eq_some_iff hsound).mp hindex

theorem indexOf?_eq_none_iff {graph : Graph α} (hsound : graph.Sound) {node : α} :
    graph.indexOf? node = none ↔ ¬ graph.Has node := by
  simp only [Option.eq_none_iff_forall_ne_some, ne_eq, indexOf?_eq_some_iff hsound, Has,
    not_exists]

theorem contains_iff {graph : Graph α} (hsound : graph.Sound) {node : α} :
    graph.contains node = true ↔ graph.Has node := by
  rw [contains, Option.isSome_iff_ne_none, ne_eq, indexOf?_eq_none_iff hsound, Classical.not_not]

theorem mem_prerequisites_iff {graph : Graph α} (hsound : graph.Sound)
    {prerequisite dependent : α} :
    prerequisite ∈ graph.prerequisites dependent ↔ graph.Edge prerequisite dependent := by
  cases hindex : graph.indexOf? dependent with
  | none =>
      have habsent := (indexOf?_eq_none_iff hsound).mp hindex
      simp only [prerequisites, find?, hindex, Option.bind_none, Option.map_none,
        Option.getD_none, nodesAt, List.filterMap_nil, List.not_mem_nil, false_iff]
      exact fun hedge => habsent hedge.has_right
  | some target =>
      have htarget := indexOf?_sound hsound hindex
      have hlist : graph.prerequisites dependent =
          graph.nodesAt (graph.prerequisiteSlots target) := by
        simp [prerequisites, find?, hindex, prerequisiteSlots]
      rw [hlist, nodesAt, List.mem_filterMap]
      constructor
      · rintro ⟨source, hfeeds, hsource⟩
        exact ⟨source, target, holds_iff_map.mpr hsource, htarget, hfeeds⟩
      · rintro ⟨source, other, hsource, hother, hfeeds⟩
        obtain rfl := hsound.holds_unique hother htarget
        exact ⟨source, hfeeds, holds_iff_map.mp hsource⟩

end Lookup

/-! The empty graph. -/

theorem Sound.empty : (Graph.empty : Graph α).Sound := by
  constructor <;> simp [Graph.empty, Holds, Feeds, slot?, prerequisiteSlots, dependentSlots]
  exact Acyclic.of_rank (fun _ => 0) (by simp [Feeds, prerequisiteSlots, slot?])

end RegionLayout.Graph
