import Mathlib.Data.List.Induction
import RegionLayout.Proofs.Graph.Listing
import RegionLayout.Proofs.Graph.Traversal

/-!
Starts of a traversal. Of the nodes that are asked for, those that no other one leads to are enough:
whatever is downstream of any of them is downstream of one of these.
-/

namespace RegionLayout.Graph

open Relation

variable {α : Type}

/-! Seeds with nothing pending. -/

/-- The seeds that no seed leads to. -/
def roots (graph : Graph α) (seeds : List Nat) : List Nat :=
  seeds.filter fun index => (graph.scope seeds).pending.getD index 0 == 0

section Roots

variable {graph : Graph α} (hsound : graph.Sound) {seeds : List Nat}
  (hseeds : ∀ seed ∈ seeds, seed < graph.slots.size)

theorem roots_sublist (graph : Graph α) (seeds : List Nat) :
    (graph.roots seeds).Sublist seeds :=
  List.filter_sublist

include hsound hseeds

theorem mem_roots_iff {index : Nat} : index ∈ graph.roots seeds ↔
    index ∈ seeds ∧ ∀ seed ∈ seeds, ¬ TransGen graph.Feeds seed index := by
  have hmarked : ∀ {place}, Marked (graph.scope seeds).members place ↔
      ∃ seed ∈ seeds, ReflTransGen graph.Feeds seed place :=
    marked_markReaders_iff hsound hseeds
  rw [roots, List.mem_filter, beq_iff_eq]
  refine and_congr_right fun hindex => ?_
  rw [pending_scope_eq_zero_iff (hmarked.mpr ⟨index, hindex, .refl⟩)]
  -- A path from a seed has its last edge within the scope.
  constructor
  · intro hnone seed hseed hpath
    obtain ⟨source, hbefore, hfeeds⟩ := TransGen.tail'_iff.mp hpath
    exact hnone source hfeeds (hmarked.mpr ⟨seed, hseed, hbefore⟩)
  · intro hnone source hfeeds hsource
    obtain ⟨seed, hseed, hbefore⟩ := hmarked.mp hsource
    exact hnone seed hseed (TransGen.tail' hbefore hfeeds)

theorem exists_root {index : Nat}
    (hdownstream : ∃ seed ∈ seeds, ReflTransGen graph.Feeds seed index) :
    ∃ root ∈ graph.roots seeds, ReflTransGen graph.Feeds root index := by
  obtain ⟨root, hroot, hpath, hfirst⟩ := hsound.acyclic.exists_first
    (List.range graph.slots.size) (fun _ _ hfeeds => List.mem_range.mpr hfeeds.target_lt)
    hdownstream
  exact ⟨root, (mem_roots_iff hsound hseeds).mpr ⟨hroot, hfirst⟩, hpath⟩

/-- Seeds that others lead to add nothing to a scope. -/
theorem scope_roots : graph.scope (graph.roots seeds) = graph.scope seeds := by
  have hroots : ∀ root ∈ graph.roots seeds, root < graph.slots.size :=
    fun root hroot => hseeds root ((graph.roots_sublist seeds).subset hroot)
  have hmembers : graph.markReaders (graph.roots seeds) = graph.markReaders seeds := by
    refine ext_of_marked ?_ fun index => ?_
    · simp [markReaders, reached, size_flood]
    · rw [marked_markReaders_iff hsound hroots, marked_markReaders_iff hsound hseeds]
      constructor
      · rintro ⟨root, hroot, hpath⟩
        exact ⟨root, (graph.roots_sublist seeds).subset hroot, hpath⟩
      · exact exists_root hsound hseeds
  simp only [scope, hmembers]

end Roots

/-! The starts that are present. -/

variable [DecidableEq α] {graph : Graph α} {starts : List α} {node : α}

theorem present_snoc (graph : Graph α) (starts : List α) (node : α) :
    graph.present (starts ++ [node]) = match graph.indexOf? node with
      | some index => if index ∈ graph.present starts then graph.present starts
        else graph.present starts ++ [index]
      | none => graph.present starts := by
  rw [present, List.foldl_append]
  rfl

theorem present_nodesAt (hsound : graph.Sound) {places : List Nat} (hnodup : places.Nodup)
    (hheld : ∀ place ∈ places, ∃ node, graph.Holds place node) :
    graph.present (graph.nodesAt places) = places := by
  induction places using List.reverseRecOn with
  | nil => rfl
  | append_singleton places place ih =>
      obtain ⟨node, hholds⟩ := hheld place (List.mem_append_right _ List.mem_cons_self)
      obtain ⟨hnodup, _, hnew⟩ := List.nodup_append.mp hnodup
      have hold := ih hnodup fun other hother => hheld other (List.mem_append_left _ hother)
      have hfresh : place ∉ places := fun hmem => hnew place hmem place List.mem_cons_self rfl
      rw [nodesAt_snoc hholds, present_snoc, (indexOf?_eq_some_iff hsound).mpr hholds, hold]
      exact if_neg hfresh

theorem mem_nodesAt_present_iff (hsound : graph.Sound) :
    node ∈ graph.nodesAt (graph.present starts) ↔ node ∈ starts ∧ graph.Has node := by
  rw [mem_nodesAt_iff]
  constructor
  · rintro ⟨place, hplace, hholds⟩
    obtain ⟨other, hother, hheld⟩ := (mem_present_iff hsound).mp hplace
    exact ⟨hholds.node_unique hheld ▸ hother, place, hholds⟩
  · rintro ⟨hstart, place, hholds⟩
    exact ⟨place, (mem_present_iff hsound).mpr ⟨node, hstart, hholds⟩, hholds⟩

theorem nodesAt_present_ordered (hsound : graph.Sound) (starts : List α) :
    (graph.nodesAt (graph.present starts)).Pairwise fun first second =>
      starts.idxOf first < starts.idxOf second := by
  induction starts using List.reverseRecOn with
  | nil => exact List.Pairwise.nil
  | append_singleton starts node ih =>
      have hstarts : ∀ held ∈ graph.nodesAt (graph.present starts), held ∈ starts :=
        fun held hheld => ((mem_nodesAt_present_iff hsound).mp hheld).1
      have hkept : (graph.nodesAt (graph.present starts)).Pairwise fun first second =>
          (starts ++ [node]).idxOf first < (starts ++ [node]).idxOf second := by
        refine ih.imp_of_mem fun hfirst hsecond hless => ?_
        rwa [List.idxOf_append_of_mem (hstarts _ hfirst),
          List.idxOf_append_of_mem (hstarts _ hsecond)]
      -- A start that is known already is not listed again, and a new one comes after all others.
      rw [present_snoc]
      cases hindex : graph.indexOf? node with
      | none => exact hkept
      | some index =>
          have hholds := indexOf?_sound hsound hindex
          dsimp only
          split
          next => exact hkept
          next hnew =>
            have hfresh : node ∉ starts :=
              fun hmem => hnew ((mem_present_iff hsound).mpr ⟨node, hmem, hholds⟩)
            rw [nodesAt_snoc hholds, List.pairwise_append]
            refine ⟨hkept, List.pairwise_singleton _ _, fun first hfirst second hsecond => ?_⟩
            obtain rfl := List.mem_singleton.mp hsecond
            rw [List.idxOf_append_of_mem (hstarts _ hfirst), List.idxOf_append_of_notMem hfresh]
            exact Nat.lt_add_right _ (List.idxOf_lt_length_of_mem (hstarts _ hfirst))

/-! Independent starts. -/

theorem independent_eq (graph : Graph α) (starts : List α) :
    graph.independent starts = graph.nodesAt (graph.roots (graph.present starts)) := rfl

theorem present_independent (hsound : graph.Sound) (starts : List α) :
    graph.present (graph.independent starts) = graph.roots (graph.present starts) := by
  refine present_nodesAt hsound (nodup_present.sublist (roots_sublist _ _)) fun place hplace => ?_
  have hpresent := (roots_sublist _ _).subset hplace
  obtain ⟨node, _, hholds⟩ := (mem_present_iff hsound).mp hpresent
  exact ⟨node, hholds⟩

theorem mem_independent_iff (hsound : graph.Sound) : node ∈ graph.independent starts ↔
    node ∈ starts ∧ graph.Has node ∧
      ∀ other ∈ starts, graph.Has other → ¬ TransGen graph.Edge other node := by
  rw [independent_eq, mem_nodesAt_iff]
  constructor
  · rintro ⟨place, hroot, hholds⟩
    obtain ⟨hplace, hfirst⟩ := (mem_roots_iff hsound (present_lt hsound)).mp hroot
    have hnode := (mem_nodesAt_present_iff hsound).mp (mem_nodesAt_iff.mpr ⟨place, hplace, hholds⟩)
    refine ⟨hnode.1, hnode.2, ?_⟩
    rintro other hother ⟨source, hsource⟩ hpath
    exact hfirst source ((mem_present_iff hsound).mpr ⟨other, hother, hsource⟩)
      ((hsound.transGen_edge_iff hsource hholds).mp hpath)
  · rintro ⟨hstart, ⟨place, hholds⟩, hfirst⟩
    refine ⟨place, (mem_roots_iff hsound (present_lt hsound)).mpr ⟨?_, fun seed hseed hpath => ?_⟩,
      hholds⟩
    · exact (mem_present_iff hsound).mpr ⟨node, hstart, hholds⟩
    · obtain ⟨other, hother, hsource⟩ := (mem_present_iff hsound).mp hseed
      exact hfirst other hother ⟨seed, hsource⟩
        ((hsound.transGen_edge_iff hsource hholds).mpr hpath)

/-- The present starts that no other present start leads to, in the order in which they are first
mentioned. -/
structure Independent (graph : Graph α) (starts kept : List α) : Prop where
  nodup : kept.Nodup
  mem_iff : ∀ node, node ∈ kept ↔ node ∈ starts ∧ graph.Has node ∧
    ∀ other ∈ starts, graph.Has other → other ≠ node → ¬ TransGen graph.Edge other node
  ordered : kept.Pairwise fun first second => starts.idxOf first < starts.idxOf second

/-- A count of direct prerequisites finds the independent starts. -/
theorem independent_after (edits : List (GraphEdit α)) (starts : List α) :
    Independent (after edits) starts ((after edits).independent starts) := by
  have hsound := sound_after edits
  have hordered : ((after edits).independent starts).Pairwise fun first second =>
      starts.idxOf first < starts.idxOf second :=
    (nodesAt_present_ordered hsound starts).sublist ((roots_sublist _ _).filterMap _)
  refine ⟨hordered.imp fun hless heq => ?_, fun node => ?_, hordered⟩
  · exact hless.ne (congrArg starts.idxOf heq)
  · rw [mem_independent_iff hsound]
    refine and_congr_right fun _ => and_congr_right fun _ => forall₃_congr fun other _ _ => ?_
    -- A node does not lead to itself, so that only the other starts matter.
    refine ⟨fun hnone _ => hnone, fun hnone hpath => hnone ?_ hpath⟩
    rintro rfl
    exact hsound.edge_acyclic other hpath

example : (after [.declare 1 2, .declare 2 3, .add 4, .remove 1]).independent [3, 4, 1, 2, 4] =
    [4, 2] := by decide

end RegionLayout.Graph
