import RegionLayout.Proofs.Graph.History
import RegionLayout.Proofs.Graph.Traversal

/-!
Liveness. A node is live if a path leads to it from a node that was asked for and every node before
it on the path passed its output on. A traversal that no visit ends early visits the live nodes.
-/

namespace RegionLayout.Graph

open Relation

variable {α ε σ : Type}

/-- A visited node passes its output on along an edge. -/
def Passes (graph : Graph α) (log : List (α × Flow)) (source target : α) : Prop :=
  graph.Edge source target ∧ (source, Flow.pass) ∈ log

def Live (graph : Graph α) (starts : List α) (log : List (α × Flow)) (node : α) : Prop :=
  ∃ start ∈ starts, graph.Has start ∧ ReflTransGen (graph.Passes log) start node

/-- The visits of a log are those of the live nodes: each once, and after whatever it depends on. -/
structure VisitsLive [DecidableEq α] (graph : Graph α) (starts : List α) (log : List (α × Flow)) :
    Prop where
  nodup : (log.map Prod.fst).Nodup
  mem_iff : ∀ node, node ∈ log.map Prod.fst ↔ graph.Live starts log node
  ordered : ∀ first ∈ log.map Prod.fst, ∀ second ∈ log.map Prod.fst,
    TransGen graph.Edge first second →
      (log.map Prod.fst).idxOf first < (log.map Prod.fst).idxOf second

section Live

variable {graph : Graph α} {starts : List α} {log : List (α × Flow)}

theorem Live.mem (hcomplete : ∀ node, graph.Wanted starts log node → node ∈ log.map Prod.fst)
    {node : α} (hlive : graph.Live starts log node) : node ∈ log.map Prod.fst := by
  obtain ⟨start, hstart, hhas, hpath⟩ := hlive
  cases hpath with
  | refl => exact hcomplete _ (.inl ⟨hstart, hhas⟩)
  | tail _ hlast => exact hcomplete _ (.inr ⟨_, hlast.2, hlast.1⟩)

theorem Wanted.live {node : α} (hwanted : graph.Wanted starts log node)
    (hreads : ∀ source ∈ log.map Prod.fst, graph.Edge source node →
      graph.Live starts log source) : graph.Live starts log node := by
  rcases hwanted with ⟨hstart, hhas⟩ | ⟨source, hpass, hedge⟩
  · exact ⟨node, hstart, hhas, .refl⟩
  · obtain ⟨start, hstart, hhas, hpath⟩ := hreads source (List.mem_map_of_mem hpass) hedge
    exact ⟨start, hstart, hhas, hpath.tail ⟨hedge, hpass⟩⟩

theorem Orderly.live (horderly : Orderly graph starts log) (hsound : graph.Sound) {node : α}
    (hvisited : node ∈ log.map Prod.fst) : graph.Live starts log node := by
  have hacyclic : Acyclic fun source target =>
      graph.Edge source target ∧ target ∈ log.map Prod.fst :=
    hsound.edge_acyclic.mono fun _ _ => And.left
  -- It was asked for, or what passed its output on to it was visited, and so was live.
  refine hacyclic.induction (motive := fun node => node ∈ log.map Prod.fst →
    graph.Live starts log node) (fun _ _ => And.right) (fun node ih hvisited => ?_) node hvisited
  exact (horderly.wanted node hvisited).live fun source hsource hedge =>
    ih source ⟨hedge, hvisited⟩ hsource

theorem Orderly.visitsLive [DecidableEq α] (horderly : Orderly graph starts log)
    (hsound : graph.Sound)
    (hcomplete : ∀ node, graph.Wanted starts log node → node ∈ log.map Prod.fst) :
    VisitsLive graph starts log where
  nodup := horderly.nodup
  mem_iff _ := ⟨horderly.live hsound, Live.mem hcomplete⟩
  ordered _ hfirst _ hsecond hpath :=
    idxOf_lt_of_pairwise horderly.ordered hfirst hsecond (hsound.edge_acyclic _) hpath

end Live

variable [DecidableEq α]

/-- A traversal with a visitor that never fails comes to its end, and it visits what is live. -/
theorem processFrom_visitsLive (edits : List (GraphEdit α)) (starts : List α)
    (visit : α → σ → Flow × σ) (state : σ) :
    ∃ log,
      Traverses (after edits) starts (steady visit) state log
        (.ok (), (after edits).processFrom starts visit state) ∧
      Visits (steady visit) log state ((after edits).processFrom starts visit state) ∧
      VisitsLive (after edits) starts log := by
  have hsound := sound_after edits
  obtain ⟨log, htraverses⟩ := exists_traverses hsound starts (steady visit) state
  obtain ⟨last, hvisits, horderly, houtcome⟩ := htraverses.exists_visits hsound
  refine ⟨log, ?_⟩
  rw [processFrom]
  generalize (after edits).traverseFrom starts (steady visit) state = result at *
  cases houtcome with
  | finished hcomplete => exact ⟨htraverses, hvisits, horderly.visitsLive hsound hcomplete⟩
  | @failed _ failure _ _ _ => exact failure.elim

end RegionLayout.Graph
