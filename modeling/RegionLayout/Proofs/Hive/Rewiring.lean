import RegionLayout.Proofs.Hive.Bookkeeping

/-!
Rewiring. A pass takes its coordinates one by one and makes the edges into each what its recipe
reads. A coordinate is refused exactly if the edges would then lead around, where the coordinates
after it still have the edges they had before the pass.
-/

namespace RegionLayout

open Relation

/-! The calculations in a trace. -/

def TraceEvent.calculated? : TraceEvent → Option CoordinateId
  | calculated id => some id
  | _ => none

/-- What was calculated, in its order. -/
def calculations (trace : Array TraceEvent) : List CoordinateId :=
  trace.toList.filterMap TraceEvent.calculated?

theorem calculations_push (trace : Array TraceEvent) (event : TraceEvent) :
    calculations (trace.push event) = calculations trace ++ event.calculated?.toList := by
  rw [calculations, Array.toList_push, List.filterMap_append, calculations]
  cases hevent : event.calculated? <;> simp [hevent]

/-! Edges of which some are replaced. -/

/-- The edges into the members of `done` are what these read; all other edges stay. -/
def Rewired {α : Type} (edge : α → α → Prop) (reads : α → List α) (done : List α)
    (prerequisite dependent : α) : Prop :=
  dependent ∈ done ∧ prerequisite ∈ reads dependent ∨ dependent ∉ done ∧ edge prerequisite dependent

section Rewired

variable {α : Type} {edge other : α → α → Prop} {reads : α → List α}

theorem rewired_nil {prerequisite dependent : α} :
    Rewired edge reads [] prerequisite dependent ↔ edge prerequisite dependent := by
  simp [Rewired]

theorem Rewired.of_mem {done : List α} {prerequisite dependent : α} (hdone : dependent ∈ done) :
    Rewired edge reads done prerequisite dependent ↔ prerequisite ∈ reads dependent := by
  simp [Rewired, hdone]

theorem Rewired.of_not_mem {done : List α} {prerequisite dependent : α} (hdone : dependent ∉ done) :
    Rewired edge reads done prerequisite dependent ↔ edge prerequisite dependent := by
  simp [Rewired, hdone]

theorem rewired_append {first second : List α}
    (hfirst : ∀ prerequisite dependent, other prerequisite dependent ↔
      Rewired edge reads first prerequisite dependent) {prerequisite dependent : α} :
    Rewired other reads second prerequisite dependent ↔
      Rewired edge reads (first ++ second) prerequisite dependent := by
  by_cases hsecond : dependent ∈ second
  · rw [Rewired.of_mem hsecond, Rewired.of_mem (List.mem_append_right first hsecond)]
  · rw [Rewired.of_not_mem hsecond, hfirst]
    by_cases hdone : dependent ∈ first
    · rw [Rewired.of_mem hdone, Rewired.of_mem (List.mem_append_left second hdone)]
    · rw [Rewired.of_not_mem hdone, Rewired.of_not_mem (by simp [hdone, hsecond])]

end Rewired

namespace Pass

/-! The edges into one coordinate. -/

section Edges

variable {graph : Graph CoordinateId} (dependent : CoordinateId)

theorem revokeAll_spec (hsound : graph.Sound) (stale : List CoordinateId) :
    (revokeAll dependent stale graph).Sound ∧
      Graph.KeepsNodes graph (revokeAll dependent stale graph) ∧
      ∀ first second, (revokeAll dependent stale graph).Edge first second ↔
        graph.Edge first second ∧ ¬ (first ∈ stale ∧ second = dependent) := by
  induction stale generalizing graph with
  | nil => exact ⟨hsound, .refl graph, by simp [revokeAll]⟩
  | cons prerequisite rest ih =>
      obtain ⟨hrest, hkeeps, hedges⟩ := ih (hsound.revoke prerequisite dependent)
      refine ⟨hrest, (Graph.keepsNodes_revoke prerequisite dependent).trans hkeeps,
        fun first second => ?_⟩
      refine (hedges first second).trans ?_
      rw [Graph.edge_revoke hsound, and_assoc, ← not_or, ← or_and_right, List.mem_cons]

/-- A graph with some more edges into one node. -/
structure Extends (before after : Graph CoordinateId) (dependent : CoordinateId)
    (added : List CoordinateId) : Prop where
  sound : after.Sound
  has : ∀ node, before.Has node → after.Has node
  edge_iff : ∀ first second, after.Edge first second ↔
    before.Edge first second ∨ first ∈ added ∧ second = dependent

variable {dependent} in
theorem Extends.cons {middle after : Graph CoordinateId} {prerequisite : CoordinateId}
    {added : List CoordinateId} (hfirst : Graph.AddsEdge graph middle prerequisite dependent)
    (hrest : Extends middle after dependent added) :
    Extends graph after dependent (prerequisite :: added) where
  sound := hrest.sound
  has node hhas := hrest.has node ((hfirst.has_iff node).mpr (.inl hhas))
  edge_iff first second := by
    rw [hrest.edge_iff, hfirst.edge_iff, or_assoc, ← or_and_right, List.mem_cons]

/-- A graph without the edges into one node that are not wanted. -/
structure Prunes (before after : Graph CoordinateId) (dependent : CoordinateId)
    (wanted : List CoordinateId) : Prop where
  sound : after.Sound
  has : ∀ node, before.Has node → after.Has node
  edge_iff : ∀ first second, after.Edge first second ↔
    before.Edge first second ∧ (second = dependent → first ∈ wanted)

theorem prunes_revokeAll (hsound : graph.Sound) (wanted : List CoordinateId) :
    Prunes graph (revokeAll dependent ((graph.prerequisites dependent).filter
      fun held => !wanted.contains held) graph) dependent wanted := by
  obtain ⟨hrevoked, hkeeps, hedges⟩ := revokeAll_spec dependent hsound
    ((graph.prerequisites dependent).filter fun held => !wanted.contains held)
  refine ⟨hrevoked, fun _ => hkeeps.has_iff.mpr, fun first second => (hedges first second).trans ?_⟩
  refine and_congr_right fun hedge => ?_
  by_cases heq : second = dependent
  · subst heq
    rw [List.mem_filter, Graph.mem_prerequisites_iff hsound]
    simp [hedge]
  · simp [heq]

section Pruned

variable {dependent} {pruned after : Graph CoordinateId} {added wanted : List CoordinateId}
  {reads : CoordinateId → List CoordinateId} {first second : CoordinateId}

theorem Prunes.edge_of_ne (hprunes : Prunes graph pruned dependent wanted)
    (hextends : Extends pruned after dependent added) (hne : second ≠ dependent) :
    after.Edge first second ↔ graph.Edge first second := by
  rw [hextends.edge_iff, or_iff_left fun hadded => hne hadded.2, hprunes.edge_iff,
    and_iff_left fun heq => absurd heq hne]

/-- What is left of the old edges is wanted, so that no edge is one too many. -/
theorem Prunes.rewired_of_edge (hprunes : Prunes graph pruned dependent (reads dependent))
    (hextends : Extends pruned after dependent added)
    (hadded : ∀ first ∈ added, first ∈ reads dependent) (hedge : after.Edge first second) :
    Rewired graph.Edge reads [dependent] first second := by
  by_cases heq : second = dependent
  · subst heq
    refine (Rewired.of_mem (List.mem_singleton_self second)).mpr ?_
    rcases (hextends.edge_iff first second).mp hedge with hleft | hdeclared
    · exact ((hprunes.edge_iff first second).mp hleft).2 rfl
    · exact hadded first hdeclared.1
  · exact (Rewired.of_not_mem (by simpa using heq)).mpr
      ((hprunes.edge_of_ne hextends heq).mp hedge)

theorem Prunes.rewired (hprunes : Prunes graph pruned dependent (reads dependent))
    (hextends : Extends pruned after dependent (reads dependent)) :
    after.Edge first second ↔ Rewired graph.Edge reads [dependent] first second := by
  refine ⟨hprunes.rewired_of_edge hextends fun _ hread => hread, fun hrewired => ?_⟩
  by_cases heq : second = dependent
  · subst heq
    exact (hextends.edge_iff first second).mpr
      (.inr ⟨(Rewired.of_mem (List.mem_singleton_self second)).mp hrewired, rfl⟩)
  · exact (hprunes.edge_of_ne hextends heq).mpr
      ((Rewired.of_not_mem (by simpa using heq)).mp hrewired)

end Pruned

theorem exists_declareAll (hsound : graph.Sound) (wanted : List CoordinateId) :
    (∃ after, declareAll dependent wanted graph = (.ok (), after) ∧
        Extends graph after dependent wanted) ∨
      ∃ added prerequisite rest after, wanted = added ++ prerequisite :: rest ∧
        declareAll dependent wanted graph = (.error ⟨prerequisite, dependent⟩, after) ∧
        Extends graph after dependent added ∧
        ReflTransGen after.Edge dependent prerequisite := by
  induction wanted generalizing graph with
  | nil => exact .inl ⟨graph, rfl, hsound, fun _ hhas => hhas, by simp⟩
  | cons prerequisite rest ih =>
      rw [declareAll]
      cases hdeclare : graph.declare prerequisite dependent with
      | error cause =>
          obtain ⟨rfl, hpath⟩ := (Graph.declare_eq_error_iff hsound).mp hdeclare
          exact .inr ⟨[], prerequisite, rest, graph, rfl, rfl,
            ⟨hsound, fun _ hhas => hhas, by simp⟩, hpath⟩
      | ok middle =>
          have hadds := Graph.addsEdge_declare hsound hdeclare
          rcases ih hadds.sound with ⟨after, hafter, hextends⟩ |
            ⟨added, refused, others, after, rfl, hafter, hextends, hpath⟩
          · exact .inl ⟨after, hafter, hextends.cons hadds⟩
          · exact .inr ⟨prerequisite :: added, refused, others, after, rfl, hafter,
              hextends.cons hadds, hpath⟩

end Edges

/-! One coordinate after the other. -/

/-- A pass after it rewired the coordinates `ids`. -/
structure Rewires (before after : Pass) (ids : List CoordinateId) : Prop where
  tree : after.tree = before.tree
  sound : after.graph.Sound
  has : ∀ node, before.graph.Has node → after.graph.Has node
  edge_iff : ∀ prerequisite dependent, after.graph.Edge prerequisite dependent ↔
    Rewired before.graph.Edge before.tree.prerequisites ids prerequisite dependent
  /-- On the way no edges led around. -/
  acyclic : ∀ count, Acyclic (Rewired before.graph.Edge before.tree.prerequisites (ids.take count))
  stats : after.stats = { before.stats with rewired := before.stats.rewired + ids.length }
  calculations : calculations after.trace = calculations before.trace

/-- A pass that rewired the coordinates `done`, and was refused at `id`. -/
structure Refused (before after : Pass) (done : List CoordinateId) (id : CoordinateId) :
    Prop where
  tree : after.tree = before.tree
  sound : after.graph.Sound
  has : ∀ node, before.graph.Has node → after.graph.Has node
  edge_iff : ∀ prerequisite dependent, dependent ≠ id →
    (after.graph.Edge prerequisite dependent ↔
      Rewired before.graph.Edge before.tree.prerequisites done prerequisite dependent)
  cyclic : ¬ Acyclic (Rewired before.graph.Edge before.tree.prerequisites (done ++ [id]))
  calculations : calculations after.trace = calculations before.trace

variable {pass : Pass}

theorem acyclic_rewired_nil (hsound : pass.graph.Sound) :
    Acyclic (Rewired pass.graph.Edge pass.tree.prerequisites []) :=
  (Acyclic.congr fun _ _ => rewired_nil).mpr hsound.edge_acyclic

theorem Rewires.refl (hsound : pass.graph.Sound) : Rewires pass pass [] where
  tree := rfl
  sound := hsound
  has _ hhas := hhas
  edge_iff _ _ := rewired_nil.symm
  acyclic _ := by
    rw [List.take_nil]
    exact acyclic_rewired_nil hsound
  stats := rfl
  calculations := rfl

theorem Rewires.cons {middle after : Pass} {id : CoordinateId} {rest : List CoordinateId}
    (hfirst : Rewires pass middle [id]) (hrest : Rewires middle after rest) :
    Rewires pass after (id :: rest) where
  tree := hrest.tree.trans hfirst.tree
  sound := hrest.sound
  has node hhas := hrest.has node (hfirst.has node hhas)
  edge_iff prerequisite dependent := by
    rw [hrest.edge_iff, hfirst.tree, rewired_append hfirst.edge_iff, List.singleton_append]
  acyclic count := by
    cases count with
    | zero => exact hfirst.acyclic 0
    | succ count =>
        have hlater := hrest.acyclic count
        rw [hfirst.tree] at hlater
        exact (Acyclic.congr fun _ _ => rewired_append hfirst.edge_iff).mp hlater
  stats := by
    rw [hrest.stats, hfirst.stats]
    simp [Nat.add_assoc, Nat.add_comm 1]
  calculations := hrest.calculations.trans hfirst.calculations

theorem Refused.cons {middle after : Pass} {first id : CoordinateId} {done : List CoordinateId}
    (hfirst : Rewires pass middle [first]) (hrest : Refused middle after done id) :
    Refused pass after (first :: done) id where
  tree := hrest.tree.trans hfirst.tree
  sound := hrest.sound
  has node hhas := hrest.has node (hfirst.has node hhas)
  edge_iff prerequisite dependent hne := by
    rw [hrest.edge_iff prerequisite dependent hne, hfirst.tree, rewired_append hfirst.edge_iff,
      List.singleton_append]
  cyclic := by
    intro hacyclic
    refine hrest.cyclic (hacyclic.mono fun prerequisite dependent hedge => ?_)
    rw [hfirst.tree] at hedge
    exact (rewired_append hfirst.edge_iff).mp hedge
  calculations := hrest.calculations.trans hfirst.calculations

/-- Where the wanted edges lead around, they cannot all be had. -/
theorem not_acyclic_of_refused {edge wantedEdge : CoordinateId → CoordinateId → Prop}
    {prerequisite dependent : CoordinateId} (hpath : ReflTransGen edge dependent prerequisite)
    (hsub : ∀ first second, edge first second → wantedEdge first second)
    (hwanted : wantedEdge prerequisite dependent) : ¬ Acyclic wantedEdge := by
  intro hacyclic
  exact hacyclic dependent (.tail' (ReflTransGen.mono hsub _ _ hpath) hwanted)

theorem rewires_of_prunes {pruned after : Graph CoordinateId} {id : CoordinateId}
    {event : TraceEvent} (hsound : pass.graph.Sound) (hevent : event.calculated? = none)
    (hprunes : Prunes pass.graph pruned id (pass.tree.prerequisites id))
    (hextends : Extends pruned after id (pass.tree.prerequisites id)) :
    Rewires pass (({ pass with graph := after }.follow event).countRewired) [id] where
  tree := rfl
  sound := hextends.sound
  has node hhas := hextends.has node (hprunes.has node hhas)
  edge_iff _ _ := hprunes.rewired hextends
  acyclic count := by
    cases count with
    | zero => exact acyclic_rewired_nil hsound
    | succ count =>
        rw [List.take_succ_cons, List.take_nil]
        exact (Acyclic.congr fun _ _ => hprunes.rewired hextends).mp hextends.sound.edge_acyclic
  stats := rfl
  calculations := by
    refine (calculations_push _ _).trans ?_
    rw [hevent, Option.toList_none, List.append_nil]

theorem refused_of_prunes {pruned after : Graph CoordinateId} {id prerequisite : CoordinateId}
    {added : List CoordinateId} {event : TraceEvent} (hevent : event.calculated? = none)
    (hprunes : Prunes pass.graph pruned id (pass.tree.prerequisites id))
    (hextends : Extends pruned after id added)
    (hadded : ∀ first ∈ added, first ∈ pass.tree.prerequisites id)
    (hwanted : prerequisite ∈ pass.tree.prerequisites id)
    (hpath : ReflTransGen after.Edge id prerequisite) :
    Refused pass ({ pass with graph := after }.follow event) [] id where
  tree := rfl
  sound := hextends.sound
  has node hhas := hextends.has node (hprunes.has node hhas)
  edge_iff _ _ hne := (hprunes.edge_of_ne hextends hne).trans rewired_nil.symm
  cyclic := by
    refine not_acyclic_of_refused hpath (fun _ _ => hprunes.rewired_of_edge hextends hadded) ?_
    exact (Rewired.of_mem (List.mem_singleton_self id)).mpr hwanted
  calculations := by
    refine (calculations_push _ _).trans ?_
    rw [hevent, Option.toList_none, List.append_nil]

theorem exists_rewire (hsound : pass.graph.Sound) {id : CoordinateId} {coordinate : Coordinate}
    (hcoordinate : pass.tree.coordinate? id = some coordinate) :
    (∃ after, pass.rewire id = (.ok (), after) ∧ Rewires pass after.countRewired [id]) ∨
      ∃ cause after, pass.rewire id = (.error (.cycle cause), after) ∧
        Refused pass after [] id := by
  have hreads : pass.tree.prerequisites id =
      pass.tree.network.prerequisites coordinate.recipe := by
    rw [RegionTree.prerequisites, hcoordinate, Option.map_some, Option.getD_some]
  rw [rewire, hcoordinate]
  dsimp only
  rw [← hreads]
  have hprunes := prunes_revokeAll id hsound (pass.tree.prerequisites id)
  rcases exists_declareAll id hprunes.sound (pass.tree.prerequisites id) with
    ⟨after, hafter, hextends⟩ |
    ⟨added, prerequisite, rest, after, hwanted, hafter, hextends, hpath⟩
  · rw [hafter]
    exact .inl ⟨_, rfl, rewires_of_prunes hsound rfl hprunes hextends⟩
  · rw [hafter]
    refine .inr ⟨_, _, rfl, refused_of_prunes rfl hprunes hextends (fun first hadded => ?_) ?_
      hpath⟩
    · rw [hwanted]
      exact List.mem_append_left _ hadded
    · rw [hwanted]
      exact List.mem_append_right _ List.mem_cons_self

theorem exists_rewireAll {ids : List CoordinateId} (hsound : pass.graph.Sound)
    (hknown : ∀ id ∈ ids, ∃ coordinate, pass.tree.coordinate? id = some coordinate) :
    (∃ after, rewireAll ids pass = (.ok (), after) ∧ Rewires pass after ids) ∨
      ∃ done id rest cause after, ids = done ++ id :: rest ∧
        rewireAll ids pass = (.error (.cycle cause), after) ∧ Refused pass after done id := by
  induction ids generalizing pass with
  | nil => exact .inl ⟨pass, rfl, .refl hsound⟩
  | cons id rest ih =>
      obtain ⟨coordinate, hcoordinate⟩ := hknown id List.mem_cons_self
      rw [rewireAll]
      rcases exists_rewire hsound hcoordinate with ⟨middle, hmiddle, hfirst⟩ |
        ⟨cause, after, hafter, hrefused⟩
      · rw [hmiddle]
        dsimp only
        have hrest := ih hfirst.sound fun other hother => by
          rw [hfirst.tree]
          exact hknown other (List.mem_cons_of_mem id hother)
        rcases hrest with ⟨after, hafter, hrewires⟩ |
          ⟨done, refused, others, cause, after, rfl, hafter, hrefused⟩
        · exact .inl ⟨after, hafter, hfirst.cons hrewires⟩
        · exact .inr ⟨id :: done, refused, others, cause, after, rfl, hafter,
            hrefused.cons hfirst⟩
      · rw [hafter]
        exact .inr ⟨[], id, rest, cause, after, rfl, rfl, hrefused⟩

/-! New nodes. -/

theorem addNodes_spec (pass : Pass) (hsound : pass.graph.Sound) (ids : List CoordinateId) :
    (pass.addNodes ids).graph.Sound ∧
      (∀ node, (pass.addNodes ids).graph.Has node ↔ pass.graph.Has node ∨ node ∈ ids) ∧
      ∀ first second, (pass.addNodes ids).graph.Edge first second ↔
        pass.graph.Edge first second := by
  induction ids generalizing pass with
  | nil => exact ⟨hsound, by simp [addNodes], fun _ _ => Iff.rfl⟩
  | cons id rest ih =>
      obtain ⟨index, hadds⟩ := Graph.exists_addsNode_addNode hsound id
      obtain ⟨hrest, hhas, hedges⟩ :=
        ih { pass with graph := (pass.graph.addNode id).2 } hadds.sound
      refine ⟨hrest, fun node => (hhas node).trans ?_, fun first second =>
        (hedges first second).trans (hadds.edge_iff hsound)⟩
      rw [hadds.has_iff, or_assoc, List.mem_cons]

end Pass

end RegionLayout
