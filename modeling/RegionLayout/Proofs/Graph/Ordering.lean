import RegionLayout.Proofs.Graph.Liveness
import RegionLayout.Proofs.Graph.Starts

/-!
Orders of a graph. Listed from some starts, every node downstream of them comes once and after all
it depends on; listed from its sources, a graph has every node in its order. Starts that other
starts lead to do not change an order.
-/

namespace RegionLayout.Graph

open Relation

variable {α ε σ : Type}

/-! Visitors that pass everything on. -/

def Passing (visit : Visitor α ε σ) : Prop :=
  ∀ node state, ∃ next, visit node state = (.ok .pass, next)

theorem passing_record : Passing (steady (record : α → Array α → Flow × Array α)) :=
  fun node order => ⟨order.push node, rfl⟩

theorem Visits.pass {visit : Visitor α ε σ} {log : List (α × Flow)} {first last : σ}
    (hvisits : Visits visit log first last) (hpassing : Passing visit) {node : α} {flow : Flow}
    (hmem : (node, flow) ∈ log) : flow = .pass := by
  induction hvisits with
  | nil => contradiction
  | @cons visited said log first second last hvisit _ ih =>
      rcases List.mem_cons.mp hmem with heq | hlater
      · obtain ⟨next, hpass⟩ := hpassing visited first
        rw [hvisit, Prod.mk.injEq, Except.ok.injEq] at hpass
        exact (Prod.mk.inj heq).2.trans hpass.1
      · exact ih hlater

theorem Visits.toList_record {log : List (α × Flow)} {first last : Array α}
    (hvisits : Visits (steady record) log first last) :
    last.toList = first.toList ++ log.map Prod.fst := by
  induction hvisits with
  | nil => simp
  | @cons visited flow log first second last hvisit _ ih =>
      obtain rfl : first.push visited = second := (Prod.mk.inj hvisit).2
      rw [ih, Array.toList_push, List.map_cons, List.append_assoc, List.singleton_append]

/-! The order from some starts. -/

section OrderFrom

variable [DecidableEq α] {graph : Graph α} (hsound : graph.Sound) (starts : List α)

include hsound

theorem exists_log_orderFrom : ∃ log, graph.orderFrom starts = log.map Prod.fst ∧
    Orderly graph starts log ∧
    (∀ node, graph.Wanted starts log node → node ∈ log.map Prod.fst) ∧
    ∀ node flow, (node, flow) ∈ log → flow = .pass := by
  obtain ⟨log, last, hvisits, horderly, houtcome⟩ :=
    exists_traverseFrom hsound starts (steady record) #[]
  rw [orderFrom, processFrom]
  generalize graph.traverseFrom starts (steady record) #[] = result at *
  cases houtcome with
  | finished hcomplete =>
      refine ⟨log, ?_, horderly, hcomplete, fun _ _ => hvisits.pass passing_record⟩
      simpa using hvisits.toList_record
  | @failed _ failure _ _ _ => exact failure.elim

theorem nodup_orderFrom : (graph.orderFrom starts).Nodup := by
  obtain ⟨log, heq, horderly, _⟩ := exists_log_orderFrom hsound starts
  exact heq ▸ horderly.nodup

theorem orderFrom_ordered : (graph.orderFrom starts).Pairwise fun earlier later =>
    ¬ TransGen graph.Edge later earlier := by
  obtain ⟨log, heq, horderly, _⟩ := exists_log_orderFrom hsound starts
  exact heq ▸ horderly.ordered

theorem mem_orderFrom_iff {node : α} : node ∈ graph.orderFrom starts ↔
    ∃ start ∈ starts, graph.Has start ∧ ReflTransGen graph.Edge start node := by
  obtain ⟨log, heq, horderly, hcomplete, hpass⟩ := exists_log_orderFrom hsound starts
  rw [heq]
  constructor
  · intro hmem
    obtain ⟨start, hstart, hhas, hpath⟩ := horderly.live hsound hmem
    exact ⟨start, hstart, hhas, ReflTransGen.mono (fun _ _ => And.left) _ _ hpath⟩
  · rintro ⟨start, hstart, hhas, hpath⟩
    induction hpath with
    | refl => exact hcomplete _ (.inl ⟨hstart, hhas⟩)
    | tail _ hedge ih =>
        obtain ⟨⟨source, flow⟩, hvisit, rfl⟩ := List.mem_map.mp ih
        obtain rfl := hpass source flow hvisit
        exact hcomplete _ (.inr ⟨source, hvisit, hedge⟩)

end OrderFrom

/-! The order of a whole graph. -/

section Order

variable [DecidableEq α] {graph : Graph α} {node : α}

theorem mem_sources_iff (hsound : graph.Sound) :
    node ∈ graph.sources ↔ graph.Has node ∧ ∀ other, ¬ graph.Edge other node := by
  rw [← isSource_iff hsound, sources, List.mem_map]
  constructor
  · rintro ⟨slot, hslot, rfl⟩
    obtain ⟨hoccupied, hsource⟩ := List.mem_filter.mp hslot
    obtain ⟨place, hplace⟩ := mem_occupied_iff.mp hoccupied
    have hindex := (indexOf?_eq_some_iff hsound).mpr ⟨slot, hplace, rfl⟩
    simpa [isSource, find?, hindex, hplace] using hsource
  · intro hsource
    obtain ⟨hfound, hslot⟩ := (Option.any_eq_true_iff_get _ _).mp hsource
    obtain ⟨slot, hfind⟩ := Option.isSome_iff_exists.mp hfound
    simp only [hfind, Option.get_some] at hslot
    obtain ⟨place, hindex, hplace⟩ := Option.bind_eq_some_iff.mp hfind
    have hholds : graph.Holds place slot.node := ⟨slot, hplace, rfl⟩
    exact ⟨slot, List.mem_filter.mpr ⟨mem_occupied_iff.mpr ⟨place, hplace⟩, hslot⟩,
      hholds.node_unique (indexOf?_sound hsound hindex)⟩

theorem exists_source (hsound : graph.Sound) (hhas : graph.Has node) :
    ∃ source ∈ graph.sources, ReflTransGen graph.Edge source node := by
  obtain ⟨source, hsource, hpath, hfirst⟩ := hsound.edge_acyclic.exists_first graph.nodes
    (fun _ _ hedge => mem_nodes_iff.mpr hedge.has_right) ⟨node, hhas, .refl⟩
  have hreads : ∀ other, ¬ graph.Edge other source :=
    fun other hedge => hfirst other hedge.has_left (.single hedge)
  exact ⟨source, (mem_sources_iff hsound).mpr ⟨hsource, hreads⟩, hpath⟩

theorem mem_order_iff (hsound : graph.Sound) : node ∈ graph.order ↔ graph.Has node := by
  rw [order, mem_orderFrom_iff hsound]
  constructor
  · rintro ⟨source, _, hhas, hpath⟩
    rcases hpath.cases_tail with rfl | ⟨_, _, hedge⟩
    · exact hhas
    · exact hedge.has_right
  · intro hhas
    obtain ⟨source, hsource, hpath⟩ := exists_source hsound hhas
    exact ⟨source, hsource, ((mem_sources_iff hsound).mp hsource).1, hpath⟩

/-- A list of all nodes, each once and after everything that it depends on. -/
structure Topological (graph : Graph α) (order : List α) : Prop where
  nodup : order.Nodup
  mem_iff : ∀ node, node ∈ order ↔ graph.Has node
  length_eq : order.length = graph.nodeCount
  ordered : ∀ first second, TransGen graph.Edge first second →
    order.idxOf first < order.idxOf second

/-- Whatever edits made a graph, its order is topological. -/
theorem order_topological (edits : List (GraphEdit α)) :
    Topological (after edits) (after edits).order := by
  have hsound := sound_after edits
  have hnodup : (after edits).order.Nodup := nodup_orderFrom hsound _
  refine ⟨hnodup, fun node => mem_order_iff hsound, ?_, fun first second hpath => ?_⟩
  · have hperm : (after edits).order.Perm (after edits).nodes := by
      rw [List.perm_ext_iff_of_nodup hnodup (nodup_nodes hsound)]
      exact fun node => (mem_order_iff hsound).trans mem_nodes_iff.symm
    rw [nodeCount_eq hsound, hperm.length_eq]
  · obtain ⟨hfirst, hsecond⟩ := has_of_transGen hpath
    exact idxOf_lt_of_pairwise (orderFrom_ordered hsound _)
      ((mem_order_iff hsound).mpr hfirst) ((mem_order_iff hsound).mpr hsecond)
      (hsound.edge_acyclic first) hpath

end Order

/-! Starts that other starts lead to. A walk from them begins with more slots marked as wanted, and
that is the only difference; with a visitor that passes everything on, a slot is wanted by the time
it is ready. -/

theorem walk_visit {graph : Graph α} {members : Array Bool} {visit : Visitor α ε σ}
    {frontier : Frontier} {index : Nat} {rest : List Nat} {slot : Slot α} {flow : Flow}
    {state next : σ} (fuel : Nat) (hready : frontier.ready = index :: rest)
    (hslot : graph.slot? index = some slot) (hwanted : Marked frontier.wanted index)
    (hvisit : visit slot.node state = (.ok flow, next)) :
    graph.walk members visit (fuel + 1) frontier state =
      graph.walk members visit fuel ({ frontier with ready := rest }.settleAll members
        (flow == Flow.pass) slot.dependents) next := by
  have hmark : frontier.wanted.getD index false = true := hwanted
  simp only [walk, hready, hslot, hmark, ↓reduceIte, hvisit]

/-- Frontiers that differ at most in what is wanted: what is ready is wanted in both. -/
structure Alike (size : Nat) (frontier other : Frontier) : Prop where
  ready : frontier.ready = other.ready
  pending : frontier.pending = other.pending
  size_left : frontier.wanted.size = size
  size_right : other.wanted.size = size
  wanted : ∀ index ∈ frontier.ready, Marked frontier.wanted index ∧ Marked other.wanted index

namespace Alike

variable {size : Nat} {frontier other : Frontier} (halike : Alike size frontier other)

include halike

theorem settle {dependent : Nat} (hlt : dependent < size) :
    Alike size (frontier.settle true dependent) (other.settle true dependent) where
  ready := by rw [Frontier.ready_settle, Frontier.ready_settle, halike.ready, halike.pending]
  pending := by simp only [Frontier.settle, halike.pending]
  size_left := (Frontier.size_wanted_settle _ _ _).trans halike.size_left
  size_right := (Frontier.size_wanted_settle _ _ _).trans halike.size_right
  wanted := by
    intro index hindex
    rw [Frontier.marked_wanted_settle _ _ (halike.size_left.symm ▸ hlt),
      Frontier.marked_wanted_settle _ _ (halike.size_right.symm ▸ hlt)]
    rw [Frontier.ready_settle] at hindex
    -- A slot that becomes ready has just been told.
    have hready : index = dependent ∨ index ∈ frontier.ready := by
      split at hindex
      · exact List.mem_cons.mp hindex
      · exact .inr hindex
    rcases hready with rfl | hwaiting
    · exact ⟨.inr ⟨rfl, rfl⟩, .inr ⟨rfl, rfl⟩⟩
    · exact (halike.wanted index hwaiting).imp .inl .inl

theorem settleAll (members : Array Bool) {dependents : List Nat}
    (hlt : ∀ dependent ∈ dependents, dependent < size) :
    Alike size (frontier.settleAll members true dependents)
      (other.settleAll members true dependents) := by
  refine List.foldl_rel halike fun dependent hmem left right hleft => ?_
  exact hleft.settle (hlt dependent (List.mem_filter.mp hmem).1)

theorem tail : Alike size { frontier with ready := frontier.ready.tail }
    { other with ready := other.ready.tail } where
  ready := congrArg List.tail halike.ready
  pending := halike.pending
  size_left := halike.size_left
  size_right := halike.size_right
  wanted index hindex := halike.wanted index (List.mem_of_mem_tail hindex)

theorem walk_eq {graph : Graph α} {members : Array Bool} {visit : Visitor α ε σ}
    (hpassing : Passing visit)
    (hlt : ∀ index, ∀ dependent ∈ graph.dependentSlots index, dependent < size)
    (fuel : Nat) (state : σ) :
    graph.walk members visit fuel frontier state = graph.walk members visit fuel other state := by
  -- Both walks take the same slots, and both visit whatever they take.
  induction fuel generalizing frontier other state with
  | zero => rfl
  | succ fuel ih =>
      cases hready : frontier.ready with
      | nil => simp only [walk, ← halike.ready, hready]
      | cons index rest =>
          have hready' := halike.ready.symm.trans hready
          have htail := halike.tail
          rw [hready, hready', List.tail_cons] at htail
          obtain ⟨hleft, hright⟩ := halike.wanted index (hready ▸ List.mem_cons_self)
          cases hslot : graph.slot? index with
          | none =>
              simp only [walk, hready, hready', hslot]
              exact ih htail state
          | some slot =>
              obtain ⟨next, hvisit⟩ := hpassing slot.node state
              rw [walk_visit fuel hready hslot hleft hvisit,
                walk_visit fuel hready' hslot hright hvisit]
              refine ih (htail.settleAll members fun dependent hmem => ?_) next
              exact hlt index dependent (dependentSlots_of_slot? hslot ▸ hmem)

end Alike

section Independent

variable {graph : Graph α}

/-- The roots are ready at first whether or not the other seeds are asked for, and they are wanted
in either case. -/
theorem alike_start {seeds : List Nat} (hseeds : ∀ seed ∈ seeds, seed < graph.slots.size) :
    Alike graph.slots.size (.start (graph.scope seeds) (graph.roots seeds))
      (.start (graph.scope seeds) seeds) := by
  have hsize : ∀ starts : List Nat,
      (Frontier.start (graph.scope seeds) starts).wanted.size = graph.slots.size := fun starts =>
    (size_foldl_setIfInBounds id starts _).trans
      (Array.size_replicate.trans (size_members graph seeds))
  have hwanted : ∀ {starts : List Nat} {index : Nat}, index ∈ starts → index ∈ seeds →
      Marked (Frontier.start (graph.scope seeds) starts).wanted index := by
    intro starts index hstart hseed
    refine (marked_foldl_iff id).mpr (.inr ⟨?_, index, hstart, rfl⟩)
    rw [Array.size_replicate, size_members]
    exact hseeds index hseed
  refine ⟨?_, rfl, hsize _, hsize _, fun index hindex => ?_⟩
  · simp only [Frontier.start, roots, List.filter_filter, Bool.and_self]
  · obtain ⟨hroot, _⟩ := List.mem_filter.mp hindex
    have hseed := (graph.roots_sublist seeds).subset hroot
    exact ⟨hwanted hroot hseed, hwanted hseed hseed⟩

variable [DecidableEq α] (hsound : graph.Sound)

include hsound

theorem traverseFrom_independent {visit : Visitor α ε σ} (hpassing : Passing visit)
    (starts : List α) (state : σ) :
    graph.traverseFrom (graph.independent starts) visit state =
      graph.traverseFrom starts visit state := by
  have hseeds : ∀ seed ∈ graph.present starts, seed < graph.slots.size := present_lt hsound
  simp only [traverseFrom, present_independent hsound, scope_roots hsound hseeds]
  refine (alike_start hseeds).walk_eq hpassing (fun index dependent hmem => ?_) _ state
  exact (hsound.feeds_iff.mpr hmem).target_lt

end Independent

/-- The order from some starts is the order from those of them that no other one leads to. -/
theorem orderFrom_independent [DecidableEq α] (edits : List (GraphEdit α)) (starts : List α) :
    (after edits).orderFrom ((after edits).independent starts) =
      (after edits).orderFrom starts := by
  rw [orderFrom, orderFrom, processFrom, processFrom,
    traverseFrom_independent (sound_after edits) passing_record]

end RegionLayout.Graph
