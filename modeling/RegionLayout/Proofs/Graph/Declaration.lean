import RegionLayout.Proofs.Graph.History
import RegionLayout.Proofs.Graph.Searches
import RegionLayout.Proofs.Steps

/-!
Declarations of edges. An edge is refused exactly if it would close a path. `GraphSteps` holds the
declaration as a machine takes it, one change of the graph after another: the search for a path
comes before the first of them, and after it nothing stops the declaration any more.
-/

namespace RegionLayout

open Relation RegionLayout.Graph Steps

variable {α β : Type}

/-- What stops a declaration halfway. -/
inductive GraphStop (α : Type) where
  | refused (cause : CycleError α)
  | fault (fault : Fault)

abbrev GraphSteps (α β : Type) := Steps (GraphStop α) (Graph α) β

namespace GraphSteps

/-- What a declaration answers, without the graph that it leaves. -/
def answer : Except (CycleError α) (Graph α) → Except (GraphStop α) Unit
  | .ok _ => .ok ()
  | .error cause => .error (.refused cause)

/-! Single steps. Numbers of slots are unbounded here. -/

/-- Takes what an access gives, or stops at its fault. -/
def access : Except Fault β → GraphSteps α β
  | .ok item => return item
  | .error fault => throw (.fault fault)

def edit (index : Nat) (change : Slot α → Slot α) : GraphSteps α Unit := do
  let graph ← get
  let edited ← access (Guarded.edit graph index change)
  set edited

/-- Puts a node into a slot: the one vacated last, or a new one. -/
def house (node : α) : GraphSteps α Nat := do
  let graph ← get
  match graph.vacant with
  | index :: rest =>
    set { graph with vacant := rest }
    let slots ← access (Guarded.put graph.slots index (some (.isolated node)))
    modify fun graph => { graph with slots }
    return index
  | [] =>
    set { graph with slots := graph.slots.push (some (.isolated node)) }
    return graph.slots.size

def link (prerequisite dependent : Nat) : GraphSteps α Unit := do
  let graph ← get
  match ← access (Guarded.fetch graph.slots dependent) with
  | none => pure ()
  | some slot =>
    if prerequisite ∈ slot.prerequisites then pure ()
    else
      edit dependent fun held =>
        { held with prerequisites := held.prerequisites ++ [prerequisite] }
      edit prerequisite fun held =>
        { held with dependents := held.dependents ++ [dependent] }

variable [DecidableEq α]

def intern (node : α) : GraphSteps α Nat := do
  let graph ← get
  match graph.indexOf? node with
  | some index => return index
  | none =>
    let index ← house node
    modify fun graph => { graph with index := (node, index) :: graph.index }
    return index

/-- Looks for a path that the edge would close. -/
def check (prerequisite dependent : α) : GraphSteps α Unit := do
  let graph ← get
  if prerequisite = dependent then throw (.refused ⟨prerequisite, dependent⟩)
  else
    let closes ← access (Guarded.dependsOn graph prerequisite dependent)
    if closes then throw (.refused ⟨prerequisite, dependent⟩) else pure ()

def declare (prerequisite dependent : α) : GraphSteps α Unit := do
  check prerequisite dependent
  let source ← intern prerequisite
  let target ← intern dependent
  link source target

/-! Steps that go through. -/

section Slots

omit [DecidableEq α]

variable {graph : Graph α} {index : Nat}

theorem result_access {outcome : Except Fault β} {item : β} (houtcome : outcome = .ok item) :
    (access outcome).result graph = (.ok item, graph) := by
  rw [houtcome]
  rfl

theorem result_edit (hlt : index < graph.slots.size) (change : Slot α → Slot α) :
    (edit index change).result graph = (.ok (), graph.edit index change) := by
  rw [edit, result_bind result_get, result_bind (result_access (Guarded.edit_eq hlt change))]
  rfl

/-- All that a new node still lacks in its slot is a place in the index. -/
theorem result_house (hsound : graph.Sound) (node : α) :
    (house node).result graph =
      (.ok (graph.allocate node).1, { (graph.allocate node).2 with index := graph.index }) := by
  rw [house, result_bind result_get, Graph.allocate]
  cases hvacant : graph.vacant with
  | nil => rfl
  | cons index rest =>
      have hlt := (hsound.mem_vacant_iff.mp (hvacant ▸ List.mem_cons_self)).1
      have htaken : (set { graph with vacant := rest } : GraphSteps α PUnit).result graph =
          (.ok ⟨⟩, { graph with vacant := rest }) := rfl
      dsimp only
      rw [result_bind htaken, result_bind (result_access (Guarded.put_eq hlt _))]
      rfl

theorem result_link {prerequisite dependent : Nat} (hsource : prerequisite < graph.slots.size)
    {node : α} (htarget : graph.Holds dependent node) :
    (link prerequisite dependent).result graph = (.ok (), graph.link prerequisite dependent) := by
  obtain ⟨slot, hslot, _⟩ := htarget
  have hlt := slot?_eq_some_lt hslot
  rw [link, result_bind result_get]
  rw [result_bind (result_access (Guarded.fetch_slots hlt)), hslot, Graph.link,
    prerequisiteSlots_of_slot? hslot]
  dsimp only
  split
  next => rfl
  next =>
    rw [result_bind (result_edit hlt _)]
    exact result_edit (by rwa [slots_size_edit]) _

end Slots

section Declare

variable {graph : Graph α} (hsound : graph.Sound)

include hsound

theorem result_intern (node : α) :
    (intern node).result graph = (.ok (graph.intern node).1, (graph.intern node).2) := by
  have hindexed : (graph.allocate node).2.index =
      (node, (graph.allocate node).1) :: graph.index := by
    rw [Graph.allocate]
    split <;> rfl
  rw [intern, result_bind result_get, Graph.intern]
  cases graph.indexOf? node with
  | some index => rfl
  | none =>
      dsimp only
      rw [result_bind (result_house hsound node)]
      exact congrArg (fun index => (_, { (graph.allocate node).2 with index })) hindexed.symm

theorem result_check (prerequisite dependent : α) :
    (check prerequisite dependent).result graph =
      if prerequisite = dependent ∨ graph.dependsOn prerequisite dependent then
        (.error (.refused ⟨prerequisite, dependent⟩), graph)
      else (.ok (), graph) := by
  rw [check, result_bind result_get]
  by_cases heq : prerequisite = dependent
  · rw [if_pos heq, if_pos (.inl heq)]
    rfl
  · rw [if_neg heq, result_bind (result_access (Guarded.dependsOn_eq hsound _ _))]
    by_cases hdepends : graph.dependsOn prerequisite dependent = true
    · rw [if_pos hdepends, if_pos (.inr hdepends)]
      rfl
    · rw [if_neg hdepends, if_neg (not_or.mpr ⟨heq, hdepends⟩)]
      rfl

/-- Taken step by step, a declaration stops before its first change or not at all. -/
theorem result_declare (prerequisite dependent : α) :
    (declare prerequisite dependent).result graph =
      (answer (graph.declare prerequisite dependent),
        graph.perform (.declare prerequisite dependent)) := by
  have hcheck := result_check hsound prerequisite dependent
  rw [Graph.perform, Graph.declare, declare]
  by_cases hrefused : prerequisite = dependent ∨ graph.dependsOn prerequisite dependent
  · rw [if_pos hrefused] at hcheck ⊢
    exact result_bind_error hcheck
  · rw [if_neg hrefused] at hcheck ⊢
    -- Either node leaves the graph sound, and on a sound graph no access faults.
    have hfirst := addsNode_intern hsound prerequisite
    have hsecond := addsNode_intern hfirst.sound dependent
    rw [result_bind hcheck, result_bind (result_intern hsound prerequisite),
      result_bind (result_intern hfirst.sound dependent)]
    exact result_link (hsecond.holds_mono hfirst.holds).lt hsecond.holds

end Declare

end GraphSteps

namespace Graph

variable [DecidableEq α]

/-- An edge would close a path: its ends are the same node, or its prerequisite depends on its
dependent. -/
def Closes (graph : Graph α) (prerequisite dependent : α) : Prop :=
  prerequisite = dependent ∨
    graph.Has prerequisite ∧ graph.Has dependent ∧ TransGen graph.Edge dependent prerequisite

section Declare

variable {graph : Graph α} {prerequisite dependent : α}

omit [DecidableEq α] in
theorem closes_iff :
    graph.Closes prerequisite dependent ↔ ReflTransGen graph.Edge dependent prerequisite := by
  constructor
  · rintro (rfl | ⟨_, _, hpath⟩)
    · exact .refl
    · exact hpath.to_reflTransGen
  · intro hpath
    rcases reflTransGen_iff_eq_or_transGen.mp hpath with rfl | hdepends
    · exact .inl rfl
    · obtain ⟨hfirst, hsecond⟩ := has_of_transGen hdepends
      exact .inr ⟨hsecond, hfirst, hdepends⟩

/-- An edge that is declared again leaves even its place in the lists of its ends. -/
theorem declare_of_edge (hsound : graph.Sound) (hedge : graph.Edge prerequisite dependent) :
    graph.declare prerequisite dependent = .ok graph := by
  have hopen : ¬ ReflTransGen graph.Edge dependent prerequisite := fun hpath =>
    hsound.edge_acyclic dependent (TransGen.tail' hpath hedge)
  obtain ⟨source, target, hsource, htarget, hfeeds⟩ := hedge
  have hlinked : source ∈ graph.prerequisiteSlots target := hfeeds
  rw [declare, if_neg ((refused_iff hsound).not.mpr hopen)]
  simp only [intern, (indexOf?_eq_some_iff hsound).mpr hsource,
    (indexOf?_eq_some_iff hsound).mpr htarget, link, if_pos hlinked]

end Declare

/-- What a declaration answers, and the graph that it leaves. -/
structure Declares (graph : Graph α) (prerequisite dependent : α) : Prop where
  error_iff : ∀ cause, graph.declare prerequisite dependent = .error cause ↔
    cause = ⟨prerequisite, dependent⟩ ∧ graph.Closes prerequisite dependent
  refused : graph.Closes prerequisite dependent →
    graph.perform (.declare prerequisite dependent) = graph
  accepted : ¬ graph.Closes prerequisite dependent →
    graph.declare prerequisite dependent = .ok (graph.perform (.declare prerequisite dependent)) ∧
      AddsEdge graph (graph.perform (.declare prerequisite dependent)) prerequisite dependent
  again : graph.Edge prerequisite dependent →
    graph.perform (.declare prerequisite dependent) = graph
  /-- Taken step by step, it answers the same and leaves the same, also where it is refused. -/
  stepwise : (GraphSteps.declare prerequisite dependent).result graph =
    (GraphSteps.answer (graph.declare prerequisite dependent),
      graph.perform (.declare prerequisite dependent))

/-- A declaration is refused exactly if its edge would close a path, and then nothing changes;
otherwise its two nodes are there and its one edge. -/
theorem declares_after (edits : List (GraphEdit α)) (prerequisite dependent : α) :
    Declares (after edits) prerequisite dependent := by
  have hsound := sound_after edits
  generalize after edits = graph at hsound
  have herror : ∀ cause, graph.declare prerequisite dependent = .error cause ↔
      cause = ⟨prerequisite, dependent⟩ ∧ graph.Closes prerequisite dependent := by
    intro cause
    rw [declare_eq_error_iff hsound, closes_iff]
  refine ⟨herror, fun hcloses => ?_, fun hopen => ?_, fun hedge => ?_,
    GraphSteps.result_declare hsound prerequisite dependent⟩
  · simp only [Graph.perform, (herror ⟨prerequisite, dependent⟩).mpr ⟨rfl, hcloses⟩]
  · cases hdeclared : graph.declare prerequisite dependent with
    | error cause => exact absurd ((herror cause).mp hdeclared).2 hopen
    | ok changed =>
        have hleft : graph.perform (.declare prerequisite dependent) = changed := by
          rw [Graph.perform, hdeclared]
        rw [hleft]
        exact ⟨rfl, addsEdge_declare hsound hdeclared⟩
  · rw [Graph.perform, declare_of_edge hsound hedge]

end Graph

end RegionLayout
