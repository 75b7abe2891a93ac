import RegionLayout.Proofs.Graph.Settling

/-!
Traversal in dependency order. A walk runs until nothing is ready, and its bound is never short; it
visits exactly what was asked for or was passed something, each node after all it reads.
-/

namespace RegionLayout.Graph

open Relation

variable {α ε σ : Type}

/-! Whole walks. -/

/-- Visits one after another, with what the visitor said at each. -/
inductive Visits (visit : Visitor α ε σ) : List (α × Flow) → σ → σ → Prop where
  | nil (state : σ) : Visits visit [] state state
  | cons {node : α} {flow : Flow} {log : List (α × Flow)} {first second last : σ}
      (hvisit : visit node first = (.ok flow, second)) (hrest : Visits visit log second last) :
      Visits visit ((node, flow) :: log) first last

def visited (done : List (Settling α)) : List (α × Flow) :=
  done.filterMap fun settling => settling.flow.map (settling.node, ·)

/-- A walk as its loop runs, round after round and with no bound on their number: from a frontier
and a state, by the visits of a log, to a result. -/
inductive Walks (graph : Graph α) (members : Array Bool) (visit : Visitor α ε σ) :
    Frontier → σ → List (α × Flow) → Except ε Unit × σ → Prop where
  | done {frontier : Frontier} {state : σ} (hready : frontier.ready = []) :
      Walks graph members visit frontier state [] (.ok (), state)
  | skip {frontier : Frontier} {index : Nat} {rest : List Nat} {slot : Slot α} {state : σ}
      {log : List (α × Flow)} {result : Except ε Unit × σ}
      (htakes : Takes graph members frontier index rest slot)
      (hwanted : ¬ Marked frontier.wanted index)
      (hrest : Walks graph members visit
        ({ frontier with ready := rest }.settleAll members false slot.dependents) state log
        result) :
      Walks graph members visit frontier state log result
  | visit {frontier : Frontier} {index : Nat} {rest : List Nat} {slot : Slot α} {flow : Flow}
      {state middle : σ} {log : List (α × Flow)} {result : Except ε Unit × σ}
      (htakes : Takes graph members frontier index rest slot)
      (hwanted : Marked frontier.wanted index) (hvisit : visit slot.node state = (.ok flow, middle))
      (hrest : Walks graph members visit
        ({ frontier with ready := rest }.settleAll members (flow == Flow.pass) slot.dependents)
        middle log result) :
      Walks graph members visit frontier state ((slot.node, flow) :: log) result
  | fail {frontier : Frontier} {index : Nat} {rest : List Nat} {slot : Slot α} {failure : ε}
      {state final : σ} (htakes : Takes graph members frontier index rest slot)
      (hwanted : Marked frontier.wanted index)
      (hvisit : visit slot.node state = (.error failure, final)) :
      Walks graph members visit frontier state [] (.error failure, final)

section Walk

variable {graph : Graph α} {seeds : List Nat} {members : Array Bool} {visit : Visitor α ε σ}
  {done : List (Settling α)} {frontier : Frontier}

theorem exists_walks (visit : Visitor α ε σ) (hsound : graph.Sound) (hscoped : Scoped graph members)
    (fuel : Nat) (hsettled : Settled graph seeds members done)
    (htracks : Tracks graph seeds members done frontier)
    (hfuel : graph.slots.size ≤ fuel + done.length) (state : σ) :
    ∃ log, Walks graph members visit frontier state log
      (graph.walk members visit fuel frontier state) := by
  -- Every round settles a slot, so that without fuel none is left.
  induction fuel generalizing done frontier state with
  | zero =>
      have hfull : graph.slots.size ≤ done.length := by simpa using hfuel
      exact ⟨[], .done (htracks.ready_eq_nil hsettled hscoped hfull)⟩
  | succ fuel ih =>
      cases hready : frontier.ready with
      | nil =>
          rw [walk, hready]
          exact ⟨[], .done hready⟩
      | cons index rest =>
          obtain ⟨slot, htakes⟩ := htracks.exists_takes hsettled hsound hscoped hready
          have hnext : ∀ (flow : Option Flow) (middle : σ),
              (flow.isSome ↔ Marked frontier.wanted index) →
              ∃ log, Walks graph members visit ({ frontier with ready := rest }.settleAll members
                (flow == some Flow.pass) slot.dependents) middle log
                (graph.walk members visit fuel ({ frontier with ready := rest }.settleAll members
                  (flow == some Flow.pass) slot.dependents) middle) := by
            intro flow middle hflow
            obtain ⟨hsettled', htracks'⟩ := htakes.snoc hsettled htracks hsound hscoped flow hflow
            refine ih hsettled' htracks' ?_ middle
            rw [List.length_append, List.length_singleton]
            omega
          simp only [walk, hready, htakes.occupied]
          cases hwanted : frontier.wanted.getD index false with
          | false =>
              have hquiet : ¬ Marked frontier.wanted index := by simp [Marked, hwanted]
              obtain ⟨log, hrest⟩ := hnext none state (iff_of_false Bool.false_ne_true hquiet)
              exact ⟨log, .skip htakes hquiet hrest⟩
          | true =>
              simp only [↓reduceIte]
              cases hvisit : visit slot.node state with
              | mk outcome middle =>
                  cases outcome with
                  | error failure => exact ⟨[], .fail htakes hwanted hvisit⟩
                  | ok flow =>
                      obtain ⟨log, hrest⟩ := hnext (some flow) middle (iff_of_true rfl hwanted)
                      exact ⟨(slot.node, flow) :: log, .visit htakes hwanted hvisit hrest⟩

/-- A result of a walk that settled `done` in visits up to the state `last`: all of the scope is
settled, or the visitor failed at the next node. -/
inductive Ends (graph : Graph α) (seeds : List Nat) (members : Array Bool)
    (visit : Visitor α ε σ) (done : List (Settling α)) (last : σ) : Except ε Unit × σ → Prop where
  | finished (hall : ∀ index, Marked members index → index ∈ done.map (·.index)) :
      Ends graph seeds members visit done last (.ok (), last)
  | failed {index : Nat} {node : α} {failure : ε} {final : σ} (hholds : graph.Holds index node)
      (hnext : Upcoming graph seeds members done index)
      (hvisit : visit node last = (.error failure, final)) :
      Ends graph seeds members visit done last (.error failure, final)

theorem Walks.exists_settled {state : σ} {log : List (α × Flow)} {result : Except ε Unit × σ}
    (hwalks : Walks graph members visit frontier state log result) (hsound : graph.Sound)
    (hscoped : Scoped graph members) (hsettled : Settled graph seeds members done)
    (htracks : Tracks graph seeds members done frontier) :
    ∃ more last, visited more = log ∧ Visits visit log state last ∧
      Settled graph seeds members (done ++ more) ∧
      Ends graph seeds members visit (done ++ more) last result := by
  induction hwalks generalizing done with
  | @done frontier state hready =>
      refine ⟨[], state, rfl, .nil state, by rwa [List.append_nil],
        .finished fun index hmember => ?_⟩
      rw [List.append_nil]
      exact htracks.all_settled hsound hscoped hready hmember
  | @skip frontier index rest slot state log result htakes hwanted _ ih =>
      obtain ⟨hsettled', htracks'⟩ := htakes.snoc hsettled htracks hsound hscoped none
        (iff_of_false Bool.false_ne_true hwanted)
      obtain ⟨more, last, rfl, hvisits, hmore, hends⟩ := ih hsettled' htracks'
      rw [List.append_assoc] at hmore hends
      exact ⟨⟨index, slot.node, none⟩ :: more, last, rfl, hvisits, hmore, hends⟩
  | @visit frontier index rest slot flow state middle log result htakes hwanted hvisit _ ih =>
      obtain ⟨hsettled', htracks'⟩ := htakes.snoc hsettled htracks hsound hscoped
        (some flow) (iff_of_true rfl hwanted)
      obtain ⟨more, last, rfl, hvisits, hmore, hends⟩ := ih hsettled' htracks'
      rw [List.append_assoc] at hmore hends
      exact ⟨⟨index, slot.node, some flow⟩ :: more, last, rfl, .cons hvisit hvisits, hmore, hends⟩
  | @fail frontier index rest slot failure state final htakes hwanted hvisit =>
      have hholds : graph.Holds index slot.node := ⟨slot, htakes.occupied, rfl⟩
      refine ⟨[], state, rfl, .nil state, by rwa [List.append_nil], .failed hholds ?_ hvisit⟩
      rw [List.append_nil]
      exact htakes.upcoming htracks hwanted

end Walk

/-! Where a traversal starts. -/

section Start

variable [DecidableEq α] {graph : Graph α} {starts : List α}

theorem mem_present_iff (hsound : graph.Sound) {index : Nat} :
    index ∈ graph.present starts ↔ ∃ node ∈ starts, graph.Holds index node := by
  refine (foldl_iff (fun seeds => index ∈ seeds) (graph.Holds index) (fun seeds node => ?_) starts
    []).trans (or_iff_right List.not_mem_nil)
  rw [← indexOf?_eq_some_iff hsound]
  cases graph.indexOf? node with
  | none => simp
  | some found =>
      dsimp only
      split
      next hmem =>
        rw [Option.some.injEq, or_iff_left_of_imp]
        intro heq
        exact heq ▸ hmem
      next => simp [eq_comm]

theorem nodup_present : (graph.present starts).Nodup := by
  refine List.foldlRecOn starts _ List.nodup_nil fun seeds hnodup node _ => ?_
  cases graph.indexOf? node with
  | none => exact hnodup
  | some found =>
      dsimp only
      split
      next => exact hnodup
      next hnew => exact hnodup.append (List.nodup_singleton found) (by simpa using hnew)

theorem present_lt (hsound : graph.Sound) : ∀ seed ∈ graph.present starts,
    seed < graph.slots.size := by
  intro seed hseed
  obtain ⟨node, _, hholds⟩ := (mem_present_iff hsound).mp hseed
  exact hholds.lt

theorem scoped_scope (starts : List α) (hsound : graph.Sound) :
    Scoped graph (graph.scope (graph.present starts)).members where
  closed := by
    intro source target hsource hfeeds
    simp only [scope, marked_markReaders_iff hsound (present_lt hsound)] at hsource ⊢
    obtain ⟨seed, hseed, hpath⟩ := hsource
    exact ⟨seed, hseed, hpath.tail hfeeds⟩
  holds := by
    intro index hmember
    simp only [scope, marked_markReaders_iff hsound (present_lt hsound)] at hmember
    obtain ⟨seed, hseed, hpath⟩ := hmember
    rcases hpath.cases_tail with rfl | ⟨_, _, hfeeds⟩
    · obtain ⟨node, _, hholds⟩ := (mem_present_iff hsound).mp hseed
      exact ⟨node, hholds⟩
    · exact hfeeds.exists_target

end Start

section Start

variable {graph : Graph α} {seeds : List Nat}

theorem settled_nil (seeds : List Nat) (members : Array Bool) : Settled graph seeds members [] := by
  constructor <;> simp

theorem size_members (graph : Graph α) (seeds : List Nat) :
    (graph.scope seeds).members.size = graph.slots.size := by
  simp [scope, markReaders, reached, size_flood]

theorem pending_scope {index : Nat} (hindex : Marked (graph.scope seeds).members index) :
    (graph.scope seeds).pending.getD index 0 = (graph.prerequisiteSlots index).countP fun source =>
      (graph.scope seeds).members.getD source false := by
  have hlt := size_members graph seeds ▸ hindex.lt
  have hpending : (graph.scope seeds).pending.getD index 0 =
      if (graph.scope seeds).members.getD index false then
        (graph.prerequisiteSlots index).countP fun source =>
          (graph.scope seeds).members.getD source false
      else 0 := by
    simp [scope, hlt]
  rw [hpending]
  exact if_pos hindex

theorem pending_scope_eq_zero_iff {index : Nat}
    (hindex : Marked (graph.scope seeds).members index) :
    (graph.scope seeds).pending.getD index 0 = 0 ↔
      ∀ source, graph.Feeds source index → ¬ Marked (graph.scope seeds).members source := by
  rw [pending_scope hindex, List.countP_eq_zero]
  rfl

theorem tracks_start (hsound : graph.Sound) (hnodup : seeds.Nodup)
    (hseeds : ∀ seed ∈ seeds, seed < graph.slots.size) :
    Tracks graph seeds (graph.scope seeds).members [] (.start (graph.scope seeds) seeds) := by
  have hsize := size_members graph seeds
  have hmember : ∀ {index}, Marked (graph.scope seeds).members index ↔
      ∃ seed ∈ seeds, ReflTransGen graph.Feeds seed index :=
    marked_markReaders_iff hsound hseeds
  constructor
  · simp [Frontier.start, scope]
  · exact (size_foldl_setIfInBounds id seeds _).trans (Array.size_replicate.trans hsize)
  · intro index hindex _
    rw [Frontier.start, pending_scope hindex]
    simp
  · exact hnodup.filter _
  · intro index
    simp only [Frontier.start, List.mem_filter, beq_iff_eq, List.map_nil, List.not_mem_nil,
      not_false_eq_true, true_and]
    constructor
    · rintro ⟨hseed, hzero⟩
      have hindex := hmember.mpr ⟨index, hseed, .refl⟩
      exact ⟨hindex, (pending_scope_eq_zero_iff hindex).mp hzero⟩
    · rintro ⟨hindex, hfirst⟩
      obtain ⟨seed, hseed, hpath⟩ := hmember.mp hindex
      rcases hpath.cases_tail with rfl | ⟨source, hbefore, hfeeds⟩
      · exact ⟨hseed, (pending_scope_eq_zero_iff hindex).mpr hfirst⟩
      · exact absurd (hmember.mpr ⟨seed, hseed, hbefore⟩) (hfirst source hfeeds)
  · intro index
    have hbound : index ∈ seeds → index < (graph.scope seeds).members.size :=
      fun hseed => hsize ▸ hseeds index hseed
    refine (marked_foldl_iff id).trans ?_
    simpa [not_marked_replicate] using hbound

end Start

/-! Traversals. -/

/-- A node is asked for, or something it reads was passed on to it. -/
def Wanted (graph : Graph α) (starts : List α) (log : List (α × Flow)) (node : α) : Prop :=
  node ∈ starts ∧ graph.Has node ∨ ∃ source, (source, Flow.pass) ∈ log ∧ graph.Edge source node

/-- No node is visited twice, before something it depends on, or without being wanted. -/
structure Orderly (graph : Graph α) (starts : List α) (log : List (α × Flow)) : Prop where
  nodup : (log.map Prod.fst).Nodup
  ordered : (log.map Prod.fst).Pairwise fun earlier later => ¬ TransGen graph.Edge later earlier
  wanted : ∀ node ∈ log.map Prod.fst, graph.Wanted starts log node

theorem mem_visited_iff {done : List (Settling α)} {node : α} {flow : Flow} :
    (node, flow) ∈ visited done ↔
      ∃ settling ∈ done, settling.node = node ∧ settling.flow = some flow := by
  simp only [visited, List.mem_filterMap, Option.map_eq_some_iff, Prod.mk.injEq]
  constructor
  · rintro ⟨settling, hmem, _, hflow, rfl, rfl⟩
    exact ⟨settling, hmem, rfl, hflow⟩
  · rintro ⟨settling, hmem, rfl, hflow⟩
    exact ⟨settling, hmem, flow, hflow, rfl, rfl⟩

theorem map_fst_visited {done : List (Settling α)} : (visited done).map Prod.fst =
    (done.filter (·.flow.isSome)).map (·.node) := by
  induction done with
  | nil => rfl
  | cons first rest ih =>
      obtain ⟨index, node, flow⟩ := first
      cases flow <;> simpa [visited] using ih

section Visited

variable [DecidableEq α] {graph : Graph α} {starts : List α} {members : Array Bool}
  {done : List (Settling α)}

theorem Settled.wanted_iff (hsettled : Settled graph (graph.present starts) members done)
    (hsound : graph.Sound) {index : Nat} {node : α} (hholds : graph.Holds index node) :
    graph.Wanted starts (visited done) node ↔ index ∈ graph.present starts ∨
      ∃ source ∈ done, source.flow = some .pass ∧ graph.Feeds source.index index := by
  refine or_congr ?_ ?_
  · rw [mem_present_iff hsound]
    constructor
    · rintro ⟨hstart, _⟩
      exact ⟨node, hstart, hholds⟩
    · rintro ⟨other, hstart, hother⟩
      obtain rfl := hother.node_unique hholds
      exact ⟨hstart, index, hholds⟩
  · constructor
    · rintro ⟨source, hsource, hedge⟩
      obtain ⟨settling, hmem, rfl, hflow⟩ := mem_visited_iff.mp hsource
      exact ⟨settling, hmem, hflow,
        (hsound.edge_iff_feeds (hsettled.holds settling hmem) hholds).mp hedge⟩
    · rintro ⟨settling, hmem, hflow, hfeeds⟩
      exact ⟨settling.node, mem_visited_iff.mpr ⟨settling, hmem, rfl, hflow⟩,
        (hsound.edge_iff_feeds (hsettled.holds settling hmem) hholds).mpr hfeeds⟩

theorem Settled.orderly (hsettled : Settled graph (graph.present starts) members done)
    (hsound : graph.Sound) : Orderly graph starts (visited done) := by
  have hpairwise := List.pairwise_map.mp
    (hsettled.nodup.and hsettled.ordered : (done.map (·.index)).Pairwise _)
  have hvisited : ((visited done).map Prod.fst).Pairwise fun first second =>
      first ≠ second ∧ ¬ TransGen graph.Edge second first := by
    rw [map_fst_visited, List.pairwise_map]
    refine (hpairwise.filter _).imp_of_mem fun {first second} hfirst hsecond hapart => ?_
    have hholds := hsettled.holds first (List.mem_filter.mp hfirst).1
    have hheld := hsettled.holds second (List.mem_filter.mp hsecond).1
    refine ⟨fun heq => hapart.1 (hsound.holds_unique hholds (heq ▸ hheld)), fun hpath => ?_⟩
    exact hapart.2 ((hsound.transGen_edge_iff hheld hholds).mp hpath)
  obtain ⟨hnodup, hordered⟩ := List.pairwise_and_iff.mp hvisited
  refine ⟨hnodup, hordered, fun node hnode => ?_⟩
  obtain ⟨⟨_, flow⟩, hmem, rfl⟩ := List.mem_map.mp hnode
  obtain ⟨settling, hsettling, rfl, hflow⟩ := mem_visited_iff.mp hmem
  rw [hsettled.wanted_iff hsound (hsettled.holds settling hsettling),
    ← hsettled.visited_iff settling hsettling, hflow]
  rfl

end Visited

section Scope

variable [DecidableEq α] {graph : Graph α} {starts : List α} {done : List (Settling α)}
  (hsettled : Settled graph (graph.present starts) (graph.scope (graph.present starts)).members
    done)
  (hsound : graph.Sound) {index : Nat} {node : α} (hholds : graph.Holds index node)
  (hwanted : graph.Wanted starts (visited done) node)

include hsettled hsound hholds hwanted

theorem Settled.member_of_wanted :
    Marked (graph.scope (graph.present starts)).members index := by
  rcases (hsettled.wanted_iff hsound hholds).mp hwanted with hseed | ⟨source, hsource, _, hfeeds⟩
  · exact (marked_markReaders_iff hsound (present_lt hsound)).mpr ⟨index, hseed, .refl⟩
  · exact (scoped_scope starts hsound).closed (hsettled.member source hsource) hfeeds

theorem Settled.mem_visited_of_wanted (hdone : index ∈ done.map (·.index)) :
    node ∈ (visited done).map Prod.fst := by
  obtain ⟨settling, hsettling, rfl⟩ := List.mem_map.mp hdone
  have hslot := (hsettled.wanted_iff hsound hholds).mp hwanted
  rw [← hsettled.visited_iff settling hsettling] at hslot
  obtain ⟨flow, hflow⟩ := Option.isSome_iff_exists.mp hslot
  obtain rfl := hholds.node_unique (hsettled.holds settling hsettling)
  exact List.mem_map.mpr ⟨(settling.node, flow),
    mem_visited_iff.mpr ⟨settling, hsettling, rfl, hflow⟩, rfl⟩

end Scope

theorem Wanted.has {graph : Graph α} {starts : List α} {log : List (α × Flow)} {node : α}
    (hwanted : graph.Wanted starts log node) : graph.Has node := by
  rcases hwanted with ⟨_, hhas⟩ | ⟨_, _, hedge⟩
  · exact hhas
  · exact hedge.has_right

/-- A node that is visited next: what it depends on was visited as far as it was wanted. -/
structure Due (graph : Graph α) (starts : List α) (log : List (α × Flow)) (node : α) : Prop where
  wanted : graph.Wanted starts log node
  fresh : node ∉ log.map Prod.fst
  reads : ∀ source, TransGen graph.Edge source node → graph.Wanted starts log source →
    source ∈ log.map Prod.fst

section Traverse

variable [DecidableEq α] {graph : Graph α} {starts : List α} {done : List (Settling α)}

theorem Settled.due
    (hsettled : Settled graph (graph.present starts) (graph.scope (graph.present starts)).members
      done) (hsound : graph.Sound) {index : Nat} {node : α} (hholds : graph.Holds index node)
    (hnext : Upcoming graph (graph.present starts) (graph.scope (graph.present starts)).members
      done index) : graph.Due starts (visited done) node where
  wanted := (hsettled.wanted_iff hsound hholds).mpr hnext.wanted
  fresh := by
    intro hvisited
    obtain ⟨⟨_, flow⟩, hmem, rfl⟩ := List.mem_map.mp hvisited
    obtain ⟨settling, hsettling, rfl, _⟩ := mem_visited_iff.mp hmem
    obtain rfl := hsound.holds_unique (hsettled.holds settling hsettling) hholds
    exact hnext.fresh (List.mem_map_of_mem hsettling)
  reads := by
    intro source hpath hwanted
    have hscoped := scoped_scope starts hsound
    obtain ⟨first, hfirst⟩ := hwanted.has
    have hmember := hsettled.member_of_wanted hsound hfirst hwanted
    -- The slot that feeds the next one is settled, and with it what leads there.
    obtain ⟨last, hbefore, hfeeds⟩ :=
      TransGen.tail'_iff.mp ((hsound.transGen_edge_iff hfirst hholds).mp hpath)
    have hmarked : Marked (graph.scope (graph.present starts)).members last := by
      clear hfeeds
      induction hbefore with
      | refl => exact hmember
      | tail _ hstep ih => exact hscoped.closed ih hstep
    obtain ⟨settling, hsettling, rfl⟩ := List.mem_map.mp (hnext.closed last hfeeds hmarked)
    exact hsettled.mem_visited_of_wanted hsound hfirst hwanted
      (hsettled.closed_path hscoped hsettling hmember hbefore)

/-- How a traversal ends after the visits of its log: everything wanted is visited, or the visitor
fails at the next node. -/
inductive Outcome (graph : Graph α) (starts : List α) (visit : Visitor α ε σ)
    (log : List (α × Flow)) (last : σ) : Except ε Unit × σ → Prop where
  | finished (hcomplete : ∀ node, graph.Wanted starts log node → node ∈ log.map Prod.fst) :
      Outcome graph starts visit log last (.ok (), last)
  | failed {node : α} {failure : ε} {final : σ} (hdue : graph.Due starts log node)
      (hvisit : visit node last = (.error failure, final)) :
      Outcome graph starts visit log last (.error failure, final)

/-- A traversal as its two loops run: one marks its scope, the other walks through it. -/
structure Traverses (graph : Graph α) (starts : List α) (visit : Visitor α ε σ) (state : σ)
    (log : List (α × Flow)) (result : Except ε Unit × σ) : Prop where
  floods : Floods graph.dependentSlots (graph.present starts)
    (Array.replicate graph.slots.size false) (graph.scope (graph.present starts)).members
  walks : Walks graph (graph.scope (graph.present starts)).members visit
    (.start (graph.scope (graph.present starts)) (graph.present starts)) state log result

theorem exists_traverses (hsound : graph.Sound) (starts : List α) (visit : Visitor α ε σ)
    (state : σ) :
    ∃ log, Traverses graph starts visit state log (graph.traverseFrom starts visit state) := by
  obtain ⟨log, hwalks⟩ := exists_walks visit hsound (scoped_scope starts hsound) graph.slots.size
    (settled_nil (graph.present starts) _) (tracks_start hsound nodup_present (present_lt hsound))
    (Nat.le_refl _) state
  refine ⟨log, floods_reached (fun first second hmem => ?_) (present_lt hsound), hwalks⟩
  exact (hsound.feeds_iff.mpr hmem).target_lt

/-- A traversal is a run of orderly visits. It ends when everything wanted is visited, or at a node
where the visitor fails. -/
theorem Traverses.exists_visits {visit : Visitor α ε σ} {state : σ} {log : List (α × Flow)}
    {result : Except ε Unit × σ} (htraverses : Traverses graph starts visit state log result)
    (hsound : graph.Sound) :
    ∃ last, Visits visit log state last ∧ Orderly graph starts log ∧
      Outcome graph starts visit log last result := by
  obtain ⟨done, last, rfl, hvisits, hsettled, hends⟩ := htraverses.walks.exists_settled hsound
    (scoped_scope starts hsound) (settled_nil (graph.present starts) _)
    (tracks_start hsound nodup_present (present_lt hsound))
  rw [List.nil_append] at hsettled hends
  refine ⟨last, hvisits, hsettled.orderly hsound, ?_⟩
  cases hends with
  | finished hall =>
      refine .finished fun node hwanted => ?_
      obtain ⟨index, hholds⟩ := hwanted.has
      exact hsettled.mem_visited_of_wanted hsound hholds hwanted
        (hall index (hsettled.member_of_wanted hsound hholds hwanted))
  | failed hholds hnext hvisit => exact .failed (hsettled.due hsound hholds hnext) hvisit

theorem exists_traverseFrom (hsound : graph.Sound) (starts : List α) (visit : Visitor α ε σ)
    (state : σ) :
    ∃ log last, Visits visit log state last ∧ Orderly graph starts log ∧
      Outcome graph starts visit log last (graph.traverseFrom starts visit state) := by
  obtain ⟨log, htraverses⟩ := exists_traverses hsound starts visit state
  obtain ⟨last, hvisits⟩ := htraverses.exists_visits hsound
  exact ⟨log, last, hvisits⟩

end Traverse

end RegionLayout.Graph
