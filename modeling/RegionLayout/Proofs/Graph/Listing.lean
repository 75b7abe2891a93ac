import RegionLayout.Proofs.Graph.History

/-!
What a prerequisite graph lists: the neighbours of a node in the order their edges were declared,
its nodes, and its edges. An edit keeps neighbours in their order; a new one comes last.
-/

namespace RegionLayout.Graph

open Relation

variable {α : Type}

/-- Each slot lists its neighbours in two directions. -/
inductive Direction where
  | prerequisites
  | dependents

namespace Direction

def neighbours : Direction → Slot α → List Nat
  | prerequisites, slot => slot.prerequisites
  | dependents, slot => slot.dependents

/-- The end of an edge that lists the other one. -/
def near {β : Type} : Direction → (prerequisite dependent : β) → β
  | prerequisites, _, dependent => dependent
  | dependents, prerequisite, _ => prerequisite

def far {β : Type} : Direction → (prerequisite dependent : β) → β
  | prerequisites, prerequisite, _ => prerequisite
  | dependents, _, dependent => dependent

variable {β : Type} (direction : Direction) (prerequisite dependent : β)

@[simp] theorem far_far_near : direction.far (direction.far prerequisite dependent)
    (direction.near prerequisite dependent) = prerequisite := by
  cases direction <;> rfl

@[simp] theorem near_far_near : direction.near (direction.far prerequisite dependent)
    (direction.near prerequisite dependent) = dependent := by
  cases direction <;> rfl

end Direction

variable (direction : Direction)

/-- The slots that a slot lists. -/
def links (graph : Graph α) (place : Nat) : List Nat :=
  ((graph.slot? place).map direction.neighbours).getD []

theorem links_unlink_sublist (graph : Graph α) (source target place : Nat) :
    ((graph.unlink source target).links direction place).Sublist (graph.links direction place) := by
  cases direction with
  | prerequisites =>
      change ((graph.unlink source target).prerequisiteSlots place).Sublist _
      rw [prerequisiteSlots_unlink]
      split
      · exact List.filter_sublist
      · exact .refl _
  | dependents =>
      change ((graph.unlink source target).dependentSlots place).Sublist _
      rw [dependentSlots_unlink]
      split
      · exact List.filter_sublist
      · exact .refl _

theorem links_link {graph : Graph α} {source target : Nat} {prerequisite dependent : α}
    (hsource : graph.Holds source prerequisite) (htarget : graph.Holds target dependent)
    (hnew : source ∉ graph.prerequisiteSlots target) (place : Nat) :
    (graph.link source target).links direction place =
      if direction.near source target = place then
        graph.links direction place ++ [direction.far source target]
      else graph.links direction place := by
  cases direction with
  | prerequisites => exact prerequisiteSlots_link htarget hnew place
  | dependents => exact dependentSlots_link hsource hnew place

theorem Removes.links_eq [DecidableEq α] {graph other : Graph α} {index : Nat} {node : α}
    (hremoves : Removes graph other index node) (place : Nat) :
    other.links direction place =
      if place = index then [] else (graph.links direction place).filter (· ≠ index) := by
  cases direction with
  | prerequisites => exact hremoves.prerequisiteSlots_eq place
  | dependents => exact hremoves.dependentSlots_eq place

variable {direction}

theorem Sound.exists_holds_of_mem_links {graph : Graph α} (hsound : graph.Sound)
    {place neighbour : Nat} (hmem : neighbour ∈ graph.links direction place) :
    ∃ node, graph.Holds neighbour node := by
  cases direction with
  | prerequisites => exact Feeds.exists_source hsound hmem
  | dependents => exact (hsound.feeds_iff.mpr hmem).exists_target

theorem Sound.nodup_links {graph : Graph α} (hsound : graph.Sound) (direction : Direction)
    (place : Nat) : (graph.links direction place).Nodup := by
  cases direction with
  | prerequisites => exact hsound.prerequisites_nodup place
  | dependents => exact hsound.dependents_nodup place

/-! Nodes seen through several slots. -/

theorem mem_nodesAt_iff {graph : Graph α} {places : List Nat} {node : α} :
    node ∈ graph.nodesAt places ↔ ∃ place ∈ places, graph.Holds place node := by
  simp only [nodesAt, List.mem_filterMap, holds_iff_map]

theorem nodesAt_sublist {graph other : Graph α} {fewer places : List Nat}
    (hplaces : fewer.Sublist places)
    (hsame : ∀ place ∈ fewer,
      (other.slot? place).map (·.node) = (graph.slot? place).map (·.node)) :
    (other.nodesAt fewer).Sublist (graph.nodesAt places) := by
  have hfewer : other.nodesAt fewer = graph.nodesAt fewer := List.filterMap_congr hsame
  rw [hfewer]
  exact hplaces.filterMap _

theorem nodesAt_snoc {graph : Graph α} {place : Nat} {node : α} (hholds : graph.Holds place node)
    (places : List Nat) : graph.nodesAt (places ++ [place]) = graph.nodesAt places ++ [node] := by
  have hnode : ((graph.slot? place).map (·.node)) = some node := holds_iff_map.mp hholds
  simp [nodesAt, hnode]

section Listed

variable [DecidableEq α] {graph other : Graph α} {node : α}

/-- The neighbours of a node, in the order they are listed. -/
def listed (graph : Graph α) (direction : Direction) (node : α) : List α :=
  graph.nodesAt (((graph.indexOf? node).map (graph.links direction)).getD [])

theorem prerequisites_eq (graph : Graph α) (node : α) :
    graph.prerequisites node = graph.listed .prerequisites node := by
  rw [prerequisites, listed, find?]
  cases graph.indexOf? node <;> rfl

theorem dependents_eq (graph : Graph α) (node : α) :
    graph.dependents node = graph.listed .dependents node := by
  rw [dependents, listed, find?]
  cases graph.indexOf? node <;> rfl

theorem listed_of_holds (hsound : graph.Sound) {place : Nat} (hholds : graph.Holds place node)
    (direction : Direction) : graph.listed direction node =
      graph.nodesAt (graph.links direction place) := by
  rw [listed, (indexOf?_eq_some_iff hsound).mpr hholds]
  rfl

theorem mem_listed_iff (hsound : graph.Sound) {direction : Direction} {neighbour : α} :
    neighbour ∈ graph.listed direction node ↔
      graph.Edge (direction.far neighbour node) (direction.near neighbour node) := by
  have hends : ∀ {place position}, graph.Holds place node → graph.Holds position neighbour →
      (graph.Edge (direction.far neighbour node) (direction.near neighbour node) ↔
        position ∈ graph.links direction place) := by
    intro place position hplace hposition
    cases direction with
    | prerequisites => exact hsound.edge_iff_feeds hposition hplace
    | dependents => exact (hsound.edge_iff_feeds hplace hposition).trans hsound.feeds_iff
  constructor
  · intro hmem
    unfold listed at hmem
    cases hindex : graph.indexOf? node with
    | none => simp [hindex, nodesAt] at hmem
    | some place =>
        simp only [hindex, Option.map_some, Option.getD_some, nodesAt, List.mem_filterMap] at hmem
        obtain ⟨position, hlinked, hposition⟩ := hmem
        exact (hends (indexOf?_sound hsound hindex) (holds_iff_map.mpr hposition)).mpr hlinked
  · intro hedge
    have hboth : graph.Has node ∧ graph.Has neighbour := by
      cases direction with
      | prerequisites => exact ⟨hedge.has_right, hedge.has_left⟩
      | dependents => exact ⟨hedge.has_left, hedge.has_right⟩
    obtain ⟨⟨place, hplace⟩, position, hposition⟩ := hboth
    rw [listed_of_holds hsound hplace, nodesAt, List.mem_filterMap]
    exact ⟨position, (hends hplace hposition).mp hedge, holds_iff_map.mp hposition⟩

theorem nodup_listed (hsound : graph.Sound) (direction : Direction) (node : α) :
    (graph.listed direction node).Nodup := by
  rw [listed]
  refine List.Nodup.filterMap (fun first second held hfirst hsecond => ?_) ?_
  · exact hsound.holds_unique (holds_iff_map.mpr hfirst) (holds_iff_map.mpr hsecond)
  · cases graph.indexOf? node with
    | none => exact List.nodup_nil
    | some place => exact hsound.nodup_links direction place

/-- Nodes may come without anything listed for them, and may go. -/
theorem listed_sublist
    (hindex : ∀ {place neighbour}, other.indexOf? node = some place →
      neighbour ∈ other.links direction place → graph.indexOf? node = some place)
    (hlinks : ∀ {place}, graph.indexOf? node = some place →
      (other.links direction place).Sublist (graph.links direction place))
    (hsame : ∀ {place neighbour}, neighbour ∈ other.links direction place →
      (other.slot? neighbour).map (·.node) = (graph.slot? neighbour).map (·.node)) :
    (other.listed direction node).Sublist (graph.listed direction node) := by
  unfold listed
  cases hplace : other.indexOf? node with
  | none => exact List.nil_sublist _
  | some place =>
      cases hempty : other.links direction place with
      | nil => simp [nodesAt, hempty]
      | cons neighbour rest =>
          have hold := hindex hplace (hempty ▸ List.mem_cons_self)
          rw [hold]
          exact nodesAt_sublist (hlinks hold) fun _ => hsame

/-! Edits that bring no edge. -/

theorem KeepsNodes.listed_sublist (hkeeps : KeepsNodes graph other)
    (hlinks : ∀ {place}, graph.indexOf? node = some place →
      (other.links direction place).Sublist (graph.links direction place)) :
    (other.listed direction node).Sublist (graph.listed direction node) := by
  refine Graph.listed_sublist (fun hplace _ => ?_) hlinks fun _ => hkeeps.node _
  rwa [indexOf?, hkeeps.index] at hplace

theorem listed_intern_sublist (hsound : graph.Sound) (added : α) :
    ((graph.intern added).2.listed direction node).Sublist (graph.listed direction node) := by
  unfold intern
  cases hadded : graph.indexOf? added with
  | some place => exact .refl _
  | none =>
      obtain ⟨hempty, hslots⟩ := slot?_allocate hsound added
      have hadds := addsNode_allocate hsound ((indexOf?_eq_none_iff hsound).mp hadded)
      have hlinks : ∀ place,
          (graph.allocate added).2.links direction place = graph.links direction place := by
        intro place
        by_cases hnew : place = (graph.allocate added).1
        · cases direction <;> simp [links, hslots, hnew, hempty] <;> rfl
        · simp [links, hslots, hnew]
      refine listed_sublist ?_ (fun {place} _ => hlinks place ▸ .refl _) ?_
      · intro place neighbour hplace hneighbour
        rw [hlinks] at hneighbour
        rcases (hadds.holds_iff place node).mp (indexOf?_sound hadds.sound hplace) with
          hold | ⟨rfl, _⟩
        · exact (indexOf?_eq_some_iff hsound).mpr hold
        · simp [links, hempty] at hneighbour
      · intro place neighbour hneighbour
        rw [hlinks] at hneighbour
        obtain ⟨held, slot, hslot, _⟩ := hsound.exists_holds_of_mem_links hneighbour
        rw [hslots, if_neg]
        rintro rfl
        simp [hempty] at hslot

theorem listed_removeNode_sublist (hsound : graph.Sound) (removed : α) :
    ((graph.removeNode removed).2.listed direction node).Sublist (graph.listed direction node) := by
  by_cases hhas : graph.Has removed
  · obtain ⟨index, hholds⟩ := hhas
    have hremoves := removes_removeNode hsound hholds
    refine listed_sublist ?_ ?_ ?_
    · intro place neighbour hplace _
      have hleft := indexOf?_sound (hsound.removeNode removed) hplace
      exact (indexOf?_eq_some_iff hsound).mpr (hremoves.holds_iff.mp hleft).2
    · intro place _
      rw [hremoves.links_eq]
      split
      next => exact List.nil_sublist _
      next => exact List.filter_sublist
    · intro place neighbour hneighbour
      rw [hremoves.links_eq] at hneighbour
      have hne : neighbour ≠ index := by
        split at hneighbour
        next => simp at hneighbour
        next => simpa using (List.mem_filter.mp hneighbour).2
      rw [hremoves.slot, if_neg hne, Option.map_map]
      rfl
  · rw [removeNode_of_not_has hsound hhas]

theorem listed_revoke_sublist (prerequisite dependent : α) :
    ((graph.revoke prerequisite dependent).2.listed direction node).Sublist
      (graph.listed direction node) := by
  refine (keepsNodes_revoke prerequisite dependent).listed_sublist fun {place} _ => ?_
  unfold revoke
  split
  · split
    · exact graph.links_unlink_sublist direction _ _ place
    · exact .refl _
  · exact .refl _

/-! Declarations. -/

/-- An accepted declaration links two slots of a graph that has both nodes and no new edge. -/
theorem exists_link_of_declare (hsound : graph.Sound) {prerequisite dependent : α}
    (hdeclared : graph.declare prerequisite dependent = .ok other) :
    ∃ final source target, other = Graph.link final source target ∧ final.Sound ∧
      final.Holds source prerequisite ∧ final.Holds target dependent ∧
      (final.Edge prerequisite dependent ↔ graph.Edge prerequisite dependent) ∧
      ∀ direction node,
        (final.listed direction node).Sublist (graph.listed direction node) := by
  unfold declare at hdeclared
  split at hdeclared
  · contradiction
  · injection hdeclared with hother
    have hfirst := addsNode_intern hsound prerequisite
    have hsecond := addsNode_intern hfirst.sound dependent
    exact ⟨_, _, _, hother.symm, hsecond.sound, hsecond.holds_mono hfirst.holds, hsecond.holds,
      (hsecond.edge_iff hfirst.sound).trans (hfirst.edge_iff hsound),
      fun direction node => (listed_intern_sublist hfirst.sound dependent).trans
        (listed_intern_sublist hsound prerequisite)⟩

/-- Where one slot's list grows by one slot, its node's list grows by the node there. -/
theorem KeepsNodes.listed_sublist_or_snoc (hkeeps : KeepsNodes graph other) (hsound : graph.Sound)
    {place neighbour : Nat} {holder added : α} (hplace : graph.Holds place holder)
    (hneighbour : graph.Holds neighbour added)
    (hlinks : ∀ position, other.links direction position = if place = position then
      graph.links direction position ++ [neighbour] else graph.links direction position)
    (node : α) :
    (other.listed direction node).Sublist (graph.listed direction node) ∨ holder = node ∧
      (other.listed direction node).Sublist (graph.listed direction node ++ [added]) := by
  by_cases hnode : holder = node
  · subst hnode
    have hheld : other.indexOf? holder = some place := by
      rw [indexOf?, hkeeps.index]
      exact (indexOf?_eq_some_iff hsound).mpr hplace
    refine .inr ⟨rfl, ?_⟩
    rw [listed_of_holds hsound hplace, ← nodesAt_snoc hneighbour, listed, hheld, Option.map_some,
      Option.getD_some, hlinks, if_pos rfl]
    exact nodesAt_sublist (.refl _) fun position _ => hkeeps.node position
  · refine .inl (hkeeps.listed_sublist fun {position} hposition => ?_)
    rw [hlinks, if_neg]
    rintro rfl
    exact hnode (hplace.node_unique (indexOf?_sound hsound hposition))

/-- Neighbours stay in their order, and at most a declared one is new and comes last. -/
theorem listed_perform (hsound : graph.Sound) (direction : Direction) (edit : GraphEdit α)
    (node : α) :
    ((graph.perform edit).listed direction node).Sublist (graph.listed direction node) ∨
    ∃ prerequisite dependent, edit = .declare prerequisite dependent ∧
      ¬ graph.Edge prerequisite dependent ∧ direction.near prerequisite dependent = node ∧
      ((graph.perform edit).listed direction node).Sublist
        (graph.listed direction node ++ [direction.far prerequisite dependent]) := by
  cases edit with
  | add added =>
      rw [perform, addNode]
      split
      · exact .inl (.refl _)
      · exact .inl (listed_intern_sublist hsound added)
  | remove removed => exact .inl (listed_removeNode_sublist hsound removed)
  | revoke prerequisite dependent => exact .inl (listed_revoke_sublist prerequisite dependent)
  | declare prerequisite dependent =>
      cases hdeclared : graph.declare prerequisite dependent with
      | error cause => exact .inl (by rw [perform, hdeclared])
      | ok other =>
          obtain ⟨final, source, target, rfl, hfinal, hsource, htarget, hedges, hlists⟩ :=
            exists_link_of_declare hsound hdeclared
          rw [perform, hdeclared]
          by_cases hnew : source ∈ final.prerequisiteSlots target
          · rw [link, if_pos hnew]
            exact .inl (hlists direction node)
          · have hnear : final.Holds (direction.near source target)
                (direction.near prerequisite dependent) := by
              cases direction <;> assumption
            have hfar : final.Holds (direction.far source target)
                (direction.far prerequisite dependent) := by
              cases direction <;> assumption
            rcases keepsNodes_link.listed_sublist_or_snoc hfinal hnear hfar
              (links_link direction hsource htarget hnew) node with hsame | ⟨rfl, hgrown⟩
            · exact .inl (hsame.trans (hlists direction node))
            · refine .inr ⟨prerequisite, dependent, rfl, ?_, rfl,
                hgrown.trans ((hlists direction _).append_right _)⟩
              rwa [← hedges, hfinal.edge_iff_feeds hsource htarget]

/-! Counts. -/

omit [DecidableEq α] in
theorem mem_occupied_iff {slot : Slot α} :
    slot ∈ graph.occupied ↔ ∃ place, graph.slot? place = some slot := by
  simp [occupied, slot?, Array.mem_iff_getElem?, Option.join_eq_some_iff]

omit [DecidableEq α] in
theorem mem_nodes_iff : node ∈ graph.nodes ↔ graph.Has node := by
  rw [nodes, List.mem_map]
  constructor
  · rintro ⟨slot, hslot, rfl⟩
    obtain ⟨place, hplace⟩ := mem_occupied_iff.mp hslot
    exact ⟨place, slot, hplace, rfl⟩
  · rintro ⟨place, slot, hplace, rfl⟩
    exact ⟨slot, mem_occupied_iff.mpr ⟨place, hplace⟩, rfl⟩

omit [DecidableEq α] in
theorem nodup_nodes (hsound : graph.Sound) : graph.nodes.Nodup := by
  rw [nodes, occupied, List.Nodup, List.pairwise_map, List.pairwise_filterMap,
    List.pairwise_iff_getElem]
  intro first second hfirst hsecond hless one hone other hother heq
  have hslot : ∀ {place : Nat} (hplace : place < graph.slots.toList.length) {slot : Slot α},
      id graph.slots.toList[place] = some slot → graph.Holds place slot.node := by
    intro place hplace slot hslot
    refine ⟨slot, ?_, rfl⟩
    simp at hslot hplace
    simp [slot?, hslot, hplace]
  exact hless.ne (hsound.holds_unique (hslot hfirst hone) (heq ▸ hslot hsecond hother))

omit [DecidableEq α] in
theorem nodeCount_eq (hsound : graph.Sound) : graph.nodeCount = graph.nodes.length := by
  have hperm : (graph.index.map Prod.fst).Perm graph.nodes := by
    rw [List.perm_ext_iff_of_nodup hsound.index_nodup (nodup_nodes hsound)]
    intro node
    rw [mem_nodes_iff, List.mem_map]
    constructor
    · rintro ⟨⟨_, place⟩, hentry, rfl⟩
      exact ⟨place, hsound.mem_index_iff.mp hentry⟩
    · rintro ⟨place, hplace⟩
      exact ⟨(node, place), hsound.mem_index_iff.mpr hplace, rfl⟩
  rw [nodeCount, ← hperm.length_eq, List.length_map]

/-- Every edge, with its prerequisite first. -/
def edges (graph : Graph α) : List (α × α) :=
  graph.nodes.flatMap fun dependent => (graph.prerequisites dependent).map fun prerequisite =>
    (prerequisite, dependent)

theorem mem_edges_iff (hsound : graph.Sound) {prerequisite dependent : α} :
    (prerequisite, dependent) ∈ graph.edges ↔ graph.Edge prerequisite dependent := by
  simp only [edges, List.mem_flatMap, List.mem_map, Prod.mk.injEq]
  constructor
  · rintro ⟨_, _, _, hmem, rfl, rfl⟩
    exact (mem_prerequisites_iff hsound).mp hmem
  · intro hedge
    exact ⟨dependent, mem_nodes_iff.mpr hedge.has_right, prerequisite,
      (mem_prerequisites_iff hsound).mpr hedge, rfl, rfl⟩

theorem length_prerequisites (hsound : graph.Sound) {place : Nat} {slot : Slot α}
    (hslot : graph.slot? place = some slot) :
    (graph.prerequisites slot.node).length = slot.prerequisites.length := by
  have hlinks : graph.links .prerequisites place = slot.prerequisites := by
    rw [links, hslot]
    rfl
  rw [prerequisites_eq, listed_of_holds hsound ⟨slot, hslot, rfl⟩, nodesAt, hlinks,
    List.filterMap_length_eq_length]
  intro neighbour hmem
  obtain ⟨node, hnode⟩ := hsound.exists_holds_of_mem_links (hlinks ▸ hmem)
  rw [holds_iff_map.mp hnode]
  rfl

theorem nodup_edges (hsound : graph.Sound) : graph.edges.Nodup := by
  refine List.nodup_flatMap.mpr ⟨fun dependent _ => ?_, (nodup_nodes hsound).imp ?_⟩
  · exact (prerequisites_eq graph dependent ▸ nodup_listed hsound _ _).map
      fun _ _ hsame => (Prod.mk.inj hsame).1
  · intro first second hne edge hfirst hsecond
    obtain ⟨_, _, rfl⟩ := List.mem_map.mp hfirst
    obtain ⟨_, _, hsame⟩ := List.mem_map.mp hsecond
    exact hne (Prod.mk.inj hsame).2.symm

theorem edgeCount_eq (hsound : graph.Sound) : graph.edgeCount = graph.edges.length := by
  rw [edgeCount, edges, List.length_flatMap, nodes, List.map_map, List.sum_eq_foldl,
    List.foldl_map]
  refine List.foldl_ext _ _ _ fun count slot hslot => ?_
  obtain ⟨place, hplace⟩ := mem_occupied_iff.mp hslot
  rw [Function.comp_apply, List.length_map, length_prerequisites hsound hplace]

/-! What edits and questions answer. -/

theorem addNode_fst_iff (hsound : graph.Sound) (node : α) :
    (graph.addNode node).1 = true ↔ ¬ graph.Has node := by
  rw [← contains_iff hsound, addNode]
  split
  next hcontains => simp [hcontains]
  next hmissing => simp [hmissing]

theorem removeNode_fst_iff (hsound : graph.Sound) (node : α) :
    (graph.removeNode node).1 = true ↔ graph.Has node := by
  by_cases hhas : graph.Has node
  · obtain ⟨place, slot, hslot, hnode⟩ := hhas
    have hindex := (indexOf?_eq_some_iff hsound).mpr ⟨slot, hslot, hnode⟩
    have hheld : (graph.forget node).slot? place = some slot := hslot
    refine iff_of_true ?_ ⟨place, slot, hslot, hnode⟩
    rw [removeNode, hindex]
    simp [hheld]
  · simp [removeNode_of_not_has hsound hhas, hhas]

theorem revoke_fst_iff (hsound : graph.Sound) (prerequisite dependent : α) :
    (graph.revoke prerequisite dependent).1 = true ↔ graph.Edge prerequisite dependent := by
  rcases revoke_cases hsound prerequisite dependent with ⟨_, _, _, _, hedge, hrevoke⟩ |
    ⟨hnone, hrevoke⟩
  · rw [hrevoke]
    exact iff_of_true rfl hedge
  · rw [hrevoke]
    exact iff_of_false Bool.false_ne_true hnone

theorem exists_declare_iff (hsound : graph.Sound) (prerequisite dependent : α) :
    (∃ changed, graph.declare prerequisite dependent = .ok changed) ↔
      ¬ ReflTransGen graph.Edge dependent prerequisite := by
  cases hdeclared : graph.declare prerequisite dependent with
  | error cause => simpa using ((declare_eq_error_iff hsound).mp hdeclared).2
  | ok changed =>
      refine iff_of_true ⟨changed, rfl⟩ fun hpath => ?_
      have herror := (declare_eq_error_iff hsound).mpr ⟨rfl, hpath⟩
      simp [hdeclared] at herror

theorem isSource_iff (hsound : graph.Sound) :
    graph.isSource node = true ↔ graph.Has node ∧ ∀ other, ¬ graph.Edge other node := by
  simp only [← mem_prerequisites_iff hsound, ← List.eq_nil_iff_forall_not_mem]
  cases hindex : graph.indexOf? node with
  | none =>
      simp [isSource, find?, hindex, (indexOf?_eq_none_iff hsound).mp hindex]
  | some place =>
      obtain ⟨slot, hslot, rfl⟩ := indexOf?_sound hsound hindex
      have hfound : graph.find? slot.node = some slot := by simp [find?, hindex, hslot]
      have hhas : graph.Has slot.node := ⟨place, slot, hslot, rfl⟩
      rw [isSource, hfound, Option.any_some, Slot.isSource, List.isEmpty_iff,
        ← List.length_eq_zero_iff, ← List.length_eq_zero_iff, length_prerequisites hsound hslot,
        and_iff_right hhas]

end Listed

end RegionLayout.Graph
