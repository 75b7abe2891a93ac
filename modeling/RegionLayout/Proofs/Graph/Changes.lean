import RegionLayout.Proofs.Graph.Edges

/-!
Changes of prerequisite graphs. A new node brings no edge, a link adds one edge, and a revoked edge
is the only one that goes; each change keeps a graph sound.
-/

namespace RegionLayout.Graph

open Relation

variable {α : Type}

/-! New nodes. -/

/-- `other` is `graph` with `node` in the slot `index`, where it may have been before. -/
structure AddsNode (graph other : Graph α) (index : Nat) (node : α) : Prop where
  sound : other.Sound
  holds_iff : ∀ place held, other.Holds place held ↔
    graph.Holds place held ∨ place = index ∧ held = node
  feeds_iff : ∀ source target, other.Feeds source target ↔ graph.Feeds source target

namespace AddsNode

variable {graph other : Graph α} {index : Nat} {node : α}

theorem refl (hsound : graph.Sound) (hholds : graph.Holds index node) :
    AddsNode graph graph index node where
  sound := hsound
  holds_iff place held := by
    constructor
    · exact .inl
    · rintro (hheld | ⟨rfl, rfl⟩)
      · exact hheld
      · exact hholds
  feeds_iff _ _ := Iff.rfl

theorem holds (hadds : AddsNode graph other index node) : other.Holds index node :=
  (hadds.holds_iff index node).mpr (.inr ⟨rfl, rfl⟩)

theorem holds_mono (hadds : AddsNode graph other index node) {place : Nat} {held : α}
    (hholds : graph.Holds place held) : other.Holds place held :=
  (hadds.holds_iff place held).mpr (.inl hholds)

theorem has_iff (hadds : AddsNode graph other index node) {held : α} :
    other.Has held ↔ graph.Has held ∨ held = node := by
  constructor
  · rintro ⟨place, hplace⟩
    rcases (hadds.holds_iff place held).mp hplace with hold | ⟨_, heq⟩
    · exact .inl ⟨place, hold⟩
    · exact .inr heq
  · rintro (⟨place, hplace⟩ | rfl)
    · exact ⟨place, hadds.holds_mono hplace⟩
    · exact ⟨index, hadds.holds⟩

/-- A slot with an edge held its node before. -/
theorem edge_iff (hsound : graph.Sound) (hadds : AddsNode graph other index node)
    {prerequisite dependent : α} :
    other.Edge prerequisite dependent ↔ graph.Edge prerequisite dependent := by
  constructor
  · rintro ⟨source, target, hsource, htarget, hfeeds⟩
    have hold := (hadds.feeds_iff source target).mp hfeeds
    obtain ⟨first, hfirst⟩ := hold.exists_source hsound
    obtain ⟨second, hsecond⟩ := hold.exists_target
    obtain rfl := (hadds.holds_mono hfirst).node_unique hsource
    obtain rfl := (hadds.holds_mono hsecond).node_unique htarget
    exact ⟨source, target, hfirst, hsecond, hold⟩
  · rintro ⟨source, target, hsource, htarget, hfeeds⟩
    exact ⟨source, target, hadds.holds_mono hsource, hadds.holds_mono htarget,
      (hadds.feeds_iff source target).mpr hfeeds⟩

theorem of_slots (hsound : graph.Sound) (hvacant : graph.slot? index = none)
    (habsent : ¬ graph.Has node)
    (hslots : ∀ place, other.slot? place =
      if place = index then some (.isolated node) else graph.slot? place)
    (hindex : other.index = (node, index) :: graph.index)
    (hnodup : other.vacant.Nodup)
    (hlisted : ∀ place, place ∈ other.vacant ↔
      place < other.slots.size ∧ other.slot? place = none) :
    AddsNode graph other index node := by
  have hprerequisites : ∀ place, other.prerequisiteSlots place = graph.prerequisiteSlots place := by
    intro place
    by_cases heq : place = index
    · simp [prerequisiteSlots, hslots, heq, hvacant, Slot.isolated]
    · simp [prerequisiteSlots, hslots, heq]
  have hdependents : ∀ place, other.dependentSlots place = graph.dependentSlots place := by
    intro place
    by_cases heq : place = index
    · simp [dependentSlots, hslots, heq, hvacant, Slot.isolated]
    · simp [dependentSlots, hslots, heq]
  have hholds : ∀ place held, other.Holds place held ↔
      graph.Holds place held ∨ place = index ∧ held = node := by
    intro place held
    by_cases heq : place = index
    · simp [Holds, hslots, heq, hvacant, Slot.isolated, eq_comm]
    · simp [Holds, hslots, heq]
  have hfeeds : ∀ source target, other.Feeds source target ↔ graph.Feeds source target := by
    intro source target
    rw [Feeds, hprerequisites, Feeds]
  have hafter : other.Sound := {
    index_nodup := by
      rw [hindex, List.map_cons, List.nodup_cons]
      refine ⟨fun hmem => ?_, hsound.index_nodup⟩
      obtain ⟨⟨held, place⟩, hentry, rfl⟩ := List.mem_map.mp hmem
      exact habsent ⟨place, hsound.mem_index_iff.mp hentry⟩
    mem_index_iff := by
      intro held place
      rw [hindex, List.mem_cons, hsound.mem_index_iff, hholds, Prod.mk.injEq, or_comm,
        and_comm (a := held = node)]
    feeds_iff := by
      intro source target
      rw [hfeeds, hdependents]
      exact hsound.feeds_iff
    prerequisites_nodup := fun place => hprerequisites place ▸ hsound.prerequisites_nodup place
    dependents_nodup := fun place => hdependents place ▸ hsound.dependents_nodup place
    vacant_nodup := hnodup
    mem_vacant_iff := hlisted _
    acyclic := (Acyclic.congr hfeeds).mpr hsound.acyclic }
  exact ⟨hafter, hholds, hfeeds⟩

end AddsNode

/-- The slot for a new node is empty, and is the only one that changes. -/
theorem slot?_allocate {graph : Graph α} (hsound : graph.Sound) (node : α) :
    graph.slot? (graph.allocate node).1 = none ∧
      ∀ place, (graph.allocate node).2.slot? place =
        if place = (graph.allocate node).1 then some (.isolated node) else graph.slot? place := by
  cases hvacant : graph.vacant with
  | nil =>
      refine ⟨by simp [allocate, hvacant, slot?], fun place => ?_⟩
      simp only [allocate, hvacant, slot?, Array.getElem?_push]
      split <;> rfl
  | cons index rest =>
      obtain ⟨hindex, hempty⟩ := hsound.mem_vacant_iff.mp (hvacant ▸ List.mem_cons_self)
      refine ⟨by simp [allocate, hvacant, hempty], fun place => ?_⟩
      simp only [allocate, hvacant, slot?, Array.getElem?_setIfInBounds, eq_comm (a := index)]
      split
      next heq => simp
      next => rfl

theorem addsNode_allocate {graph : Graph α} (hsound : graph.Sound) {node : α}
    (habsent : ¬ graph.Has node) :
    AddsNode graph (graph.allocate node).2 (graph.allocate node).1 node := by
  obtain ⟨hempty, hslots⟩ := slot?_allocate hsound node
  cases hvacant : graph.vacant with
  | nil =>
      have hnone : ∀ {place}, graph.slot? place = none → graph.slots.size ≤ place := by
        intro place hplace
        by_contra hlt
        have hlisted := hsound.mem_vacant_iff.mpr ⟨Nat.lt_of_not_le hlt, hplace⟩
        simp [hvacant] at hlisted
      have hfirst : (graph.allocate node).1 = graph.slots.size := by simp [allocate, hvacant]
      have hsize : (graph.allocate node).2.slots.size = graph.slots.size + 1 := by
        simp [allocate, hvacant]
      have hrest : (graph.allocate node).2.vacant = [] := by simp [allocate, hvacant]
      refine .of_slots hsound hempty habsent hslots (by simp [allocate, hvacant])
        (by simp [hrest]) fun place => ?_
      rw [hrest, hsize, hslots, hfirst]
      simp only [List.not_mem_nil, false_iff, not_and]
      intro hlt
      split
      next => simp
      next hne =>
        intro hplace
        have := hnone hplace
        omega
  | cons index rest =>
      have hindex := (hsound.mem_vacant_iff.mp (hvacant ▸ List.mem_cons_self)).1
      obtain ⟨hnotrest, hrestnodup⟩ := List.nodup_cons.mp (hvacant ▸ hsound.vacant_nodup)
      have hfirst : (graph.allocate node).1 = index := by simp [allocate, hvacant]
      have hsize : (graph.allocate node).2.slots.size = graph.slots.size := by
        simp [allocate, hvacant]
      have hrest : (graph.allocate node).2.vacant = rest := by simp [allocate, hvacant]
      refine .of_slots hsound hempty habsent hslots (by simp [allocate, hvacant])
        (hrest ▸ hrestnodup) fun place => ?_
      rw [hrest, hsize, hslots, hfirst]
      have hlisted : place ∈ index :: rest ↔
          place < graph.slots.size ∧ graph.slot? place = none :=
        hvacant ▸ hsound.mem_vacant_iff
      by_cases heq : place = index
      · simp [heq, hnotrest]
      · simpa [heq] using hlisted

section

variable [DecidableEq α]

theorem addsNode_intern {graph : Graph α} (hsound : graph.Sound) (node : α) :
    AddsNode graph (graph.intern node).2 (graph.intern node).1 node := by
  cases hindex : graph.indexOf? node with
  | none =>
      have habsent := (indexOf?_eq_none_iff hsound).mp hindex
      simpa [intern, hindex] using addsNode_allocate hsound habsent
  | some index =>
      simpa [intern, hindex] using AddsNode.refl hsound (indexOf?_sound hsound hindex)

theorem exists_addsNode_addNode {graph : Graph α} (hsound : graph.Sound) (node : α) :
    ∃ index, AddsNode graph (graph.addNode node).2 index node := by
  by_cases hcontains : graph.contains node = true
  · obtain ⟨index, hholds⟩ := (contains_iff hsound).mp hcontains
    exact ⟨index, by simpa [addNode, hcontains] using AddsNode.refl hsound hholds⟩
  · exact ⟨_, by simpa [addNode, hcontains] using addsNode_intern hsound node⟩

end

/-! Edges that come and go. -/

/-- `other` has the slots of `graph` and their nodes; its edges may differ. -/
structure KeepsNodes (graph other : Graph α) : Prop where
  node : ∀ index, (other.slot? index).map (·.node) = (graph.slot? index).map (·.node)
  index : other.index = graph.index
  vacant : other.vacant = graph.vacant
  size : other.slots.size = graph.slots.size

namespace KeepsNodes

variable {graph middle other : Graph α}

theorem refl (graph : Graph α) : KeepsNodes graph graph :=
  ⟨fun _ => rfl, rfl, rfl, rfl⟩

theorem trans (hfirst : KeepsNodes graph middle) (hsecond : KeepsNodes middle other) :
    KeepsNodes graph other where
  node index := (hsecond.node index).trans (hfirst.node index)
  index := hsecond.index.trans hfirst.index
  vacant := hsecond.vacant.trans hfirst.vacant
  size := hsecond.size.trans hfirst.size

theorem edit (graph : Graph α) (index : Nat) {change : Slot α → Slot α}
    (hnode : ∀ slot, (change slot).node = slot.node) : KeepsNodes graph (graph.edit index change) :=
  ⟨fun other => node_edit graph index other hnode, index_edit graph index change,
    vacant_edit graph index change, slots_size_edit graph index change⟩

theorem holds_iff (hkeeps : KeepsNodes graph other) {index : Nat} {node : α} :
    other.Holds index node ↔ graph.Holds index node := by
  rw [holds_iff_map, holds_iff_map, hkeeps.node]

theorem has_iff (hkeeps : KeepsNodes graph other) {node : α} : other.Has node ↔ graph.Has node :=
  exists_congr fun _ => hkeeps.holds_iff

theorem slot?_eq_none_iff (hkeeps : KeepsNodes graph other) {index : Nat} :
    other.slot? index = none ↔ graph.slot? index = none := by
  rw [← Option.map_eq_none_iff (f := (·.node)), hkeeps.node, Option.map_eq_none_iff]

/-- The clauses about nodes stay true by themselves. -/
theorem sound (hkeeps : KeepsNodes graph other) (hsound : graph.Sound)
    (hfeeds : ∀ {source target}, other.Feeds source target ↔ target ∈ other.dependentSlots source)
    (hprerequisites : ∀ index, (other.prerequisiteSlots index).Nodup)
    (hdependents : ∀ index, (other.dependentSlots index).Nodup)
    (hacyclic : Acyclic other.Feeds) : other.Sound where
  index_nodup := hkeeps.index ▸ hsound.index_nodup
  mem_index_iff := by
    intro node index
    rw [hkeeps.index, hkeeps.holds_iff]
    exact hsound.mem_index_iff
  feeds_iff := hfeeds
  prerequisites_nodup := hprerequisites
  dependents_nodup := hdependents
  vacant_nodup := hkeeps.vacant ▸ hsound.vacant_nodup
  mem_vacant_iff := by
    intro index
    rw [hkeeps.vacant, hkeeps.size, hkeeps.slot?_eq_none_iff]
    exact hsound.mem_vacant_iff
  acyclic := hacyclic

end KeepsNodes

section Link

variable {graph : Graph α} {source target : Nat} {prerequisite dependent : α}

theorem keepsNodes_link : KeepsNodes graph (graph.link source target) := by
  unfold link
  split
  · exact .refl graph
  · refine KeepsNodes.trans (.edit graph target ?_) (.edit _ source ?_) <;> exact fun _ => rfl

theorem prerequisiteSlots_link (htarget : graph.Holds target dependent)
    (hnew : source ∉ graph.prerequisiteSlots target) (index : Nat) :
    (graph.link source target).prerequisiteSlots index =
      if target = index then graph.prerequisiteSlots index ++ [source]
      else graph.prerequisiteSlots index := by
  rw [link, if_neg hnew, prerequisiteSlots_edit_same,
    prerequisiteSlots_edit (f := (· ++ [source]))]
  · exact fun _ => rfl
  · exact .inr ⟨_, htarget⟩
  · exact fun _ => rfl

theorem dependentSlots_link (hsource : graph.Holds source prerequisite)
    (hnew : source ∉ graph.prerequisiteSlots target) (index : Nat) :
    (graph.link source target).dependentSlots index =
      if source = index then graph.dependentSlots index ++ [target]
      else graph.dependentSlots index := by
  rw [link, if_neg hnew, dependentSlots_edit (f := (· ++ [target])),
    dependentSlots_edit_same]
  · exact fun _ => rfl
  · exact fun _ => rfl
  · refine .inr ⟨prerequisite, KeepsNodes.holds_iff (.edit graph target ?_) |>.mpr hsource⟩
    exact fun _ => rfl

theorem feeds_link (htarget : graph.Holds target dependent) (first second : Nat) :
    (graph.link source target).Feeds first second ↔
      graph.Feeds first second ∨ first = source ∧ second = target := by
  by_cases hnew : source ∈ graph.prerequisiteSlots target
  · rw [link, if_pos hnew]
    constructor
    · exact .inl
    · rintro (hfeeds | ⟨rfl, rfl⟩)
      · exact hfeeds
      · exact hnew
  · rw [Feeds, prerequisiteSlots_link htarget hnew, Feeds]
    split
    next heq => simp [heq]
    next hne => simp [Ne.symm hne]

theorem Sound.link (hsound : graph.Sound) (hsource : graph.Holds source prerequisite)
    (htarget : graph.Holds target dependent) (hopen : ¬ ReflTransGen graph.Feeds target source) :
    (graph.link source target).Sound := by
  by_cases hnew : source ∈ graph.prerequisiteSlots target
  · rwa [Graph.link, if_pos hnew]
  have hmissing : target ∉ graph.dependentSlots source :=
    fun hmem => hnew (hsound.feeds_iff.mpr hmem)
  refine keepsNodes_link.sound hsound ?_ ?_ ?_ ?_
  · intro first second
    rw [feeds_link htarget, dependentSlots_link hsource hnew, hsound.feeds_iff]
    split
    next heq => simp [heq]
    next hne => simp [Ne.symm hne]
  · intro index
    rw [prerequisiteSlots_link htarget hnew]
    split
    next heq =>
      exact (hsound.prerequisites_nodup index).append (List.nodup_singleton _)
        (by simpa [heq] using hnew)
    next => exact hsound.prerequisites_nodup index
  · intro index
    rw [dependentSlots_link hsource hnew]
    split
    next heq =>
      exact (hsound.dependents_nodup index).append (List.nodup_singleton _)
        (by simpa [heq] using hmissing)
    next => exact hsound.dependents_nodup index
  · exact (Acyclic.congr (feeds_link htarget)).mpr (hsound.acyclic.insert hopen)

theorem keepsNodes_unlink : KeepsNodes graph (graph.unlink source target) := by
  refine KeepsNodes.trans (.edit graph target ?_) (.edit _ source ?_) <;> exact fun _ => rfl

theorem prerequisiteSlots_unlink (index : Nat) :
    (graph.unlink source target).prerequisiteSlots index =
      if target = index then (graph.prerequisiteSlots index).filter (· ≠ source)
      else graph.prerequisiteSlots index := by
  rw [unlink, prerequisiteSlots_edit_same,
    prerequisiteSlots_edit (f := (·.filter (· ≠ source)))]
  · exact fun _ => rfl
  · exact .inl rfl
  · exact fun _ => rfl

theorem dependentSlots_unlink (index : Nat) :
    (graph.unlink source target).dependentSlots index =
      if source = index then (graph.dependentSlots index).filter (· ≠ target)
      else graph.dependentSlots index := by
  rw [unlink, dependentSlots_edit (f := (·.filter (· ≠ target))), dependentSlots_edit_same]
  · exact fun _ => rfl
  · exact fun _ => rfl
  · exact .inl rfl

theorem feeds_unlink (first second : Nat) :
    (graph.unlink source target).Feeds first second ↔
      graph.Feeds first second ∧ ¬ (first = source ∧ second = target) := by
  rw [Feeds, prerequisiteSlots_unlink, Feeds]
  split
  next heq => simp [heq]
  next hne => simp [Ne.symm hne]

theorem Sound.unlink (hsound : graph.Sound) : (graph.unlink source target).Sound := by
  refine keepsNodes_unlink.sound hsound ?_ ?_ ?_ ?_
  · intro first second
    rw [feeds_unlink, dependentSlots_unlink, hsound.feeds_iff]
    split
    next heq => simp [heq]
    next hne => simp [Ne.symm hne]
  · intro index
    rw [prerequisiteSlots_unlink]
    split
    · exact (hsound.prerequisites_nodup index).filter _
    · exact hsound.prerequisites_nodup index
  · intro index
    rw [dependentSlots_unlink]
    split
    · exact (hsound.dependents_nodup index).filter _
    · exact hsound.dependents_nodup index
  · exact hsound.acyclic.mono fun first second hfeeds => ((feeds_unlink first second).mp hfeeds).1

end Link

/-! Taking an edge back. -/

section Revoke

variable [DecidableEq α] {graph : Graph α}

theorem Sound.revoke (hsound : graph.Sound) (prerequisite dependent : α) :
    (graph.revoke prerequisite dependent).2.Sound := by
  unfold Graph.revoke
  split
  · split
    · exact hsound.unlink
    · exact hsound
  · exact hsound

theorem keepsNodes_revoke (prerequisite dependent : α) :
    KeepsNodes graph (graph.revoke prerequisite dependent).2 := by
  unfold revoke
  split
  · split
    · exact keepsNodes_unlink
    · exact .refl graph
  · exact .refl graph

/-- A revocation unlinks the ends of an edge, or finds no edge. -/
theorem revoke_cases (hsound : graph.Sound) (prerequisite dependent : α) :
    (∃ source target, graph.Holds source prerequisite ∧ graph.Holds target dependent ∧
      graph.Edge prerequisite dependent ∧
      graph.revoke prerequisite dependent = (true, graph.unlink source target)) ∨
    ¬ graph.Edge prerequisite dependent ∧
      graph.revoke prerequisite dependent = (false, graph) := by
  unfold Graph.revoke
  split
  next source target hsource htarget =>
    have hholds := indexOf?_sound hsound hsource
    have hheld := indexOf?_sound hsound htarget
    have hedge := hsound.edge_iff_feeds hholds hheld
    split
    next hfeeds => exact .inl ⟨source, target, hholds, hheld, hedge.mpr hfeeds, rfl⟩
    next hnone => exact .inr ⟨fun hpresent => hnone (hedge.mp hpresent), rfl⟩
  next hmissing =>
    refine .inr ⟨fun hedge => ?_, rfl⟩
    obtain ⟨source, hsource⟩ := hedge.has_left
    obtain ⟨target, htarget⟩ := hedge.has_right
    exact hmissing source target ((indexOf?_eq_some_iff hsound).mpr hsource)
      ((indexOf?_eq_some_iff hsound).mpr htarget)

omit [DecidableEq α] in
theorem edge_unlink (hsound : graph.Sound) {source target : Nat} {prerequisite dependent : α}
    (hholds : graph.Holds source prerequisite) (hheld : graph.Holds target dependent)
    (first second : α) : (graph.unlink source target).Edge first second ↔
      graph.Edge first second ∧ ¬ (first = prerequisite ∧ second = dependent) := by
  constructor
  · rintro ⟨place, position, hplace, hposition, hfeeds⟩
    obtain ⟨hold, hother⟩ := (feeds_unlink place position).mp hfeeds
    have hplace := keepsNodes_unlink.holds_iff.mp hplace
    have hposition := keepsNodes_unlink.holds_iff.mp hposition
    refine ⟨⟨place, position, hplace, hposition, hold⟩, ?_⟩
    rintro ⟨rfl, rfl⟩
    exact hother ⟨hsound.holds_unique hplace hholds, hsound.holds_unique hposition hheld⟩
  · rintro ⟨⟨place, position, hplace, hposition, hold⟩, hother⟩
    refine ⟨place, position, keepsNodes_unlink.holds_iff.mpr hplace,
      keepsNodes_unlink.holds_iff.mpr hposition, (feeds_unlink place position).mpr ⟨hold, ?_⟩⟩
    rintro ⟨rfl, rfl⟩
    exact hother ⟨hplace.node_unique hholds, hposition.node_unique hheld⟩

theorem edge_revoke (hsound : graph.Sound) (prerequisite dependent first second : α) :
    (graph.revoke prerequisite dependent).2.Edge first second ↔
      graph.Edge first second ∧ ¬ (first = prerequisite ∧ second = dependent) := by
  rcases revoke_cases hsound prerequisite dependent with
    ⟨source, target, hholds, hheld, _, hrevoke⟩ | ⟨hnone, hrevoke⟩
  · rw [hrevoke]
    exact edge_unlink hsound hholds hheld first second
  · rw [hrevoke]
    refine (and_iff_left_of_imp fun hedge => ?_).symm
    rintro ⟨rfl, rfl⟩
    exact hnone hedge

end Revoke

end RegionLayout.Graph
