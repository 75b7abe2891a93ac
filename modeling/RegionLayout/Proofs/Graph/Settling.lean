import Mathlib.Data.List.Perm.Subperm
import RegionLayout.Graph.Traversal
import RegionLayout.Proofs.Graph.Reachability

/-!
Settling slots. `done` lists the slots that a walk is through with, each with what the visitor said
there; the frontier is determined by it. A slot that is ready can be settled next, and a walk with
nothing ready has settled all of its scope.
-/

namespace RegionLayout.Graph

open Relation

variable {α ε σ : Type}

/-- A slot that a walk is through with. -/
structure Settling (α : Type) where
  index : Nat
  node : α
  /-- What the visitor said, or nothing if there was no visit. -/
  flow : Option Flow

/-! Telling dependents. -/

namespace Frontier

variable (frontier : Frontier) (members : Array Bool) (passes : Bool)

theorem size_pending_settle (dependent : Nat) :
    (frontier.settle passes dependent).pending.size = frontier.pending.size := by
  simp [settle]

theorem size_wanted_settle (dependent : Nat) :
    (frontier.settle passes dependent).wanted.size = frontier.wanted.size := by
  unfold settle
  split <;> simp

theorem pending_settle {dependent index : Nat} (hlt : dependent < frontier.pending.size) :
    (frontier.settle passes dependent).pending.getD index 0 =
      frontier.pending.getD index 0 - if index = dependent then 1 else 0 := by
  simp only [settle, Array.getD_eq_getD_getElem?, Array.getElem?_setIfInBounds]
  by_cases heq : dependent = index
  · subst heq
    simp [hlt]
  · simp [heq, Ne.symm heq]

theorem marked_wanted_settle {dependent index : Nat} (hlt : dependent < frontier.wanted.size) :
    Marked (frontier.settle passes dependent).wanted index ↔
      Marked frontier.wanted index ∨ passes = true ∧ index = dependent := by
  cases passes with
  | false => simp [settle]
  | true => simp [settle, marked_setIfInBounds, hlt]

theorem ready_settle (dependent : Nat) :
    (frontier.settle passes dependent).ready =
      if frontier.pending.getD dependent 0 - 1 = 0 then dependent :: frontier.ready
      else frontier.ready := rfl

/-- What a list of dependents does to a frontier, taken together. -/
structure Told (frontier : Frontier) (passes : Bool) (dependents : List Nat) (told : Frontier) :
    Prop where
  size_pending : told.pending.size = frontier.pending.size
  size_wanted : told.wanted.size = frontier.wanted.size
  pending : ∀ index, told.pending.getD index 0 =
    frontier.pending.getD index 0 - if index ∈ dependents then 1 else 0
  wanted : ∀ index, Marked told.wanted index ↔
    Marked frontier.wanted index ∨ passes = true ∧ index ∈ dependents
  ready : told.ready = (dependents.filter fun dependent =>
    frontier.pending.getD dependent 0 - 1 == 0).reverse ++ frontier.ready

theorem told_foldl {dependents : List Nat} (hnodup : dependents.Nodup)
    (hpending : ∀ dependent ∈ dependents, dependent < frontier.pending.size)
    (hwanted : ∀ dependent ∈ dependents, dependent < frontier.wanted.size) :
    Told frontier passes dependents
      (dependents.foldl (fun frontier dependent => frontier.settle passes dependent) frontier) := by
  induction dependents generalizing frontier with
  | nil => constructor <;> simp
  | cons first rest ih =>
      obtain ⟨hfirst, hrest⟩ := List.nodup_cons.mp hnodup
      have hlt := hpending first List.mem_cons_self
      have hbound := hwanted first List.mem_cons_self
      have htold := ih (frontier.settle passes first) hrest
        (fun other hother => by
          rw [size_pending_settle]
          exact hpending other (List.mem_cons_of_mem _ hother))
        (fun other hother => by
          rw [size_wanted_settle]
          exact hwanted other (List.mem_cons_of_mem _ hother))
      rw [List.foldl_cons]
      constructor
      · rw [htold.size_pending, size_pending_settle]
      · rw [htold.size_wanted, size_wanted_settle]
      · intro index
        rw [htold.pending, pending_settle _ _ hlt]
        by_cases heq : index = first
        · simp [heq, hfirst]
        · simp [heq]
      · intro index
        rw [htold.wanted, marked_wanted_settle _ _ hbound, List.mem_cons, or_assoc, ← and_or_left]
      · -- The first is not told again, so that the others count as before.
        have hsame : rest.filter (fun dependent =>
            (frontier.settle passes first).pending.getD dependent 0 - 1 == 0) =
              rest.filter fun dependent => frontier.pending.getD dependent 0 - 1 == 0 := by
          refine List.filter_congr fun other hother => ?_
          have hne : other ≠ first := fun heq => hfirst (heq ▸ hother)
          rw [pending_settle _ _ hlt, if_neg hne, Nat.sub_zero]
        rw [htold.ready, hsame, ready_settle, List.filter_cons]
        generalize frontier.pending.getD first 0 - 1 = left
        by_cases hzero : left = 0 <;> simp [hzero]

end Frontier

/-! What is settled. -/

/-- Slots of a scope that were settled in this order, with the visits that they called for. -/
structure Settled (graph : Graph α) (seeds : List Nat) (members : Array Bool)
    (done : List (Settling α)) : Prop where
  nodup : (done.map (·.index)).Nodup
  holds : ∀ settling ∈ done, graph.Holds settling.index settling.node
  member : ∀ settling ∈ done, Marked members settling.index
  /-- What a settled slot reads in scope is settled. -/
  closed : ∀ settling ∈ done, ∀ source, graph.Feeds source settling.index →
    Marked members source → source ∈ done.map (·.index)
  ordered : (done.map (·.index)).Pairwise fun earlier later => ¬ TransGen graph.Feeds later earlier
  visited_iff : ∀ settling ∈ done, settling.flow.isSome ↔ settling.index ∈ seeds ∨
    ∃ source ∈ done, source.flow = some .pass ∧ graph.Feeds source.index settling.index

/-- A frontier is what its settled slots make it. -/
structure Tracks (graph : Graph α) (seeds : List Nat) (members : Array Bool)
    (done : List (Settling α)) (frontier : Frontier) : Prop where
  size_pending : frontier.pending.size = graph.slots.size
  size_wanted : frontier.wanted.size = graph.slots.size
  pending : ∀ index, Marked members index → index ∉ done.map (·.index) →
    frontier.pending.getD index 0 = (graph.prerequisiteSlots index).countP fun source =>
      members.getD source false && decide (source ∉ done.map (·.index))
  ready_nodup : frontier.ready.Nodup
  mem_ready : ∀ index, index ∈ frontier.ready ↔ Marked members index ∧
    index ∉ done.map (·.index) ∧ ∀ source, graph.Feeds source index → Marked members source →
      source ∈ done.map (·.index)
  wanted : ∀ index, Marked frontier.wanted index ↔ index ∈ seeds ∨
    ∃ source ∈ done, source.flow = some .pass ∧ graph.Feeds source.index index

/-- The slots of a scope: what follows a member is one, and each holds a node. -/
structure Scoped (graph : Graph α) (members : Array Bool) : Prop where
  closed : ∀ {source target}, Marked members source → graph.Feeds source target →
    Marked members target
  holds : ∀ {index}, Marked members index → ∃ node, graph.Holds index node

theorem Scoped.lt {graph : Graph α} {members : Array Bool} (hscoped : Scoped graph members)
    {index : Nat} (hmember : Marked members index) : index < graph.slots.size :=
  let ⟨_, hholds⟩ := hscoped.holds hmember
  hholds.lt

/-- One settled slot more is one fewer to wait for. -/
theorem countP_unsettled {sources settled : List Nat} {index : Nat} {p : Nat → Bool}
    (hnodup : sources.Nodup) (hwithin : p index = true) (hnew : index ∉ settled) :
    sources.countP (fun source => p source && decide (source ∉ settled)) =
      sources.countP (fun source => p source && decide (source ∉ settled ++ [index])) +
        if index ∈ sources then 1 else 0 := by
  induction sources with
  | nil => simp
  | cons first rest ih =>
      obtain ⟨hfirst, hrest⟩ := List.nodup_cons.mp hnodup
      rw [List.countP_cons, List.countP_cons, ih hrest]
      by_cases heq : index = first
      · subst heq
        simp [hwithin, hnew, hfirst]
      · have hother : (first ∉ settled ++ [index]) ↔ first ∉ settled := by
          simp [Ne.symm heq]
        simp only [hother, List.mem_cons, heq, false_or]
        omega

section Step

variable {graph : Graph α} {seeds : List Nat} {members : Array Bool} {done : List (Settling α)}
  {frontier : Frontier} {index : Nat} {rest : List Nat} {node : α} {flow : Option Flow}

theorem countP_unsettled_eq_zero_iff {settled : List Nat} :
    ((graph.prerequisiteSlots index).countP fun source =>
        members.getD source false && decide (source ∉ settled)) = 0 ↔
      ∀ source, graph.Feeds source index → Marked members source → source ∈ settled := by
  simp only [List.countP_eq_zero, Bool.and_eq_true, decide_eq_true_eq, not_and, Decidable.not_not]
  rfl

theorem exists_pass_snoc {last : Settling α} :
    (∃ source ∈ done ++ [last], source.flow = some .pass ∧ graph.Feeds source.index index) ↔
      (∃ source ∈ done, source.flow = some .pass ∧ graph.Feeds source.index index) ∨
        last.flow = some .pass ∧ graph.Feeds last.index index := by
  simp only [List.mem_append, List.mem_singleton, or_and_right, exists_or, exists_eq_left]

theorem Settled.closed_path (hsettled : Settled graph seeds members done)
    (hscoped : Scoped graph members) {source : Nat} {settling : Settling α}
    (hmem : settling ∈ done) (hsource : Marked members source)
    (hpath : ReflTransGen graph.Feeds source settling.index) :
    source ∈ done.map (·.index) := by
  induction hpath using ReflTransGen.head_induction_on with
  | refl => exact List.mem_map_of_mem hmem
  | head hstep _ ih =>
      obtain ⟨middle, hmiddle, hindex⟩ := List.mem_map.mp (ih (hscoped.closed hsource hstep))
      exact hsettled.closed middle hmiddle _ (hindex ▸ hstep) hsource

theorem Settled.open_of_feeds (hsettled : Settled graph seeds members done)
    (hmember : Marked members index) (hopen : index ∉ done.map (·.index)) {other : Nat}
    (hfeeds : graph.Feeds index other) : other ∉ done.map (·.index) := by
  intro hdone
  obtain ⟨settling, hmem, rfl⟩ := List.mem_map.mp hdone
  exact hopen (hsettled.closed settling hmem index hfeeds hmember)

/-- A ready slot may be settled next. -/
theorem Settled.snoc (hsettled : Settled graph seeds members done)
    (hsound : graph.Sound) (hscoped : Scoped graph members)
    (htracks : Tracks graph seeds members done frontier) (hready : frontier.ready = index :: rest)
    (hholds : graph.Holds index node)
    (hflow : flow.isSome ↔ Marked frontier.wanted index) :
    Settled graph seeds members (done ++ [⟨index, node, flow⟩]) := by
  obtain ⟨hmember, hopen, hreads⟩ := (htracks.mem_ready index).mp (hready ▸ List.mem_cons_self)
  constructor
  · simpa [List.nodup_append] using ⟨hsettled.nodup, fun other hother heq =>
      hopen (heq ▸ List.mem_map_of_mem hother)⟩
  · simpa [or_imp, forall_and] using ⟨hsettled.holds, hholds⟩
  · simpa [or_imp, forall_and] using ⟨hsettled.member, hmember⟩
  · intro settling hmem source hfeeds hsource
    rw [List.map_append, List.mem_append]
    rcases List.mem_append.mp hmem with hold | hlast
    · exact .inl (hsettled.closed settling hold source hfeeds hsource)
    · obtain rfl := List.mem_singleton.mp hlast
      exact .inl (hreads source hfeeds hsource)
  · rw [List.map_append, List.pairwise_append]
    refine ⟨hsettled.ordered, List.pairwise_singleton _ _, fun earlier hearlier later hlater => ?_⟩
    obtain rfl : later = index := by simpa using hlater
    obtain ⟨settling, hmem, rfl⟩ := List.mem_map.mp hearlier
    exact fun hpath => hopen (hsettled.closed_path hscoped hmem hmember hpath.to_reflTransGen)
  · intro settling hmem
    rw [exists_pass_snoc]
    rcases List.mem_append.mp hmem with hold | hlast
    · have hlate : ¬ graph.Feeds index settling.index := fun hfeeds =>
        hsettled.open_of_feeds hmember hopen hfeeds (List.mem_map_of_mem hold)
      simp only [hsettled.visited_iff settling hold, hlate, and_false, or_false]
    · obtain rfl := List.mem_singleton.mp hlast
      simp only [hflow, htracks.wanted, hsound.acyclic.irreflexive index, and_false, or_false]

theorem Scoped.mem_dependents_iff (hscoped : Scoped graph members) (hsound : graph.Sound)
    (hmember : Marked members index) {other : Nat} :
    other ∈ (graph.dependentSlots index).filter (fun dependent => members.getD dependent false) ↔
      graph.Feeds index other := by
  rw [List.mem_filter, ← hsound.feeds_iff]
  exact ⟨And.left, fun hfeeds => ⟨hfeeds, hscoped.closed hmember hfeeds⟩⟩

section Next

variable (htracks : Tracks graph seeds members done frontier) (hsound : graph.Sound)
  (hscoped : Scoped graph members) (hready : frontier.ready = index :: rest)

include htracks hsound

theorem Tracks.pending_eq (hmember : Marked members index) (hnew : index ∉ done.map (·.index))
    {other : Nat} (hother : Marked members other) (hopen : other ∉ done.map (·.index)) :
    frontier.pending.getD other 0 = ((graph.prerequisiteSlots other).countP fun source =>
      members.getD source false && decide (source ∉ done.map (·.index) ++ [index])) +
        if graph.Feeds index other then 1 else 0 := by
  rw [htracks.pending other hother hopen, countP_unsettled (hsound.prerequisites_nodup other)
    (p := fun source => members.getD source false) hmember hnew]
  rfl

include hscoped hready

theorem Tracks.told (passes : Bool) :
    Frontier.Told { frontier with ready := rest } passes
      ((graph.dependentSlots index).filter fun dependent => members.getD dependent false)
      ({ frontier with ready := rest }.settleAll members passes (graph.dependentSlots index)) := by
  obtain ⟨hmember, _, _⟩ := (htracks.mem_ready index).mp (hready ▸ List.mem_cons_self)
  have hbound : ∀ other ∈ (graph.dependentSlots index).filter
      (fun dependent => members.getD dependent false), other < graph.slots.size := by
    intro other hother
    exact ((hscoped.mem_dependents_iff hsound hmember).mp hother).target_lt
  exact Frontier.told_foldl _ passes ((hsound.dependents_nodup index).filter _)
    (fun other hother => htracks.size_pending ▸ hbound other hother)
    (fun other hother => htracks.size_wanted ▸ hbound other hother)

theorem Tracks.mem_ready_told (hsettled : Settled graph seeds members done) {passes : Bool}
    {told : Frontier} (htold : Frontier.Told { frontier with ready := rest } passes
      ((graph.dependentSlots index).filter fun dependent => members.getD dependent false) told)
    (other : Nat) : other ∈ told.ready ↔ Marked members other ∧
      other ∉ done.map (·.index) ++ [index] ∧ ∀ source, graph.Feeds source other →
        Marked members source → source ∈ done.map (·.index) ++ [index] := by
  obtain ⟨hmember, hnew, _⟩ := (htracks.mem_ready index).mp (hready ▸ List.mem_cons_self)
  have hindex := (List.nodup_cons.mp (hready ▸ htracks.ready_nodup)).1
  rw [htold.ready, List.mem_append, List.mem_reverse, List.mem_filter,
    hscoped.mem_dependents_iff hsound hmember, beq_iff_eq, List.mem_append, not_or,
    List.mem_singleton]
  constructor
  · -- Told, it was the settled slot that was missing; otherwise it was ready before.
    rintro (⟨hfeeds, hzero⟩ | hwaiting)
    · have hother := hscoped.closed hmember hfeeds
      have hopen := hsettled.open_of_feeds hmember hnew hfeeds
      have hne : other ≠ index := by
        rintro rfl
        exact hsound.acyclic.irreflexive _ hfeeds
      rw [htracks.pending_eq hsound hmember hnew hother hopen, if_pos hfeeds, Nat.add_sub_cancel,
        countP_unsettled_eq_zero_iff] at hzero
      exact ⟨hother, ⟨hopen, hne⟩, hzero⟩
    · obtain ⟨hother, hopen, hall⟩ :=
        (htracks.mem_ready other).mp (hready ▸ List.mem_cons_of_mem _ hwaiting)
      refine ⟨hother, ⟨hopen, fun heq => hindex (heq ▸ hwaiting)⟩, fun source hfeeds hsource => ?_⟩
      exact List.mem_append_left _ (hall source hfeeds hsource)
  · rintro ⟨hother, ⟨hopen, hdiffers⟩, hall⟩
    by_cases hfeeds : graph.Feeds index other
    · refine .inl ⟨hfeeds, ?_⟩
      rw [htracks.pending_eq hsound hmember hnew hother hopen, if_pos hfeeds, Nat.add_sub_cancel,
        countP_unsettled_eq_zero_iff]
      exact hall
    · have hwaiting : other ∈ frontier.ready := by
        refine (htracks.mem_ready other).mpr ⟨hother, hopen, fun source hsource hmarked => ?_⟩
        rcases List.mem_append.mp (hall source hsource hmarked) with hold | hlast
        · exact hold
        · exact absurd (List.mem_singleton.mp hlast ▸ hsource) hfeeds
      exact .inr ((List.mem_cons.mp (hready ▸ hwaiting)).resolve_left hdiffers)

/-- The frontier of the next round is what the settled slots make it. -/
theorem Tracks.snoc (hsettled : Settled graph seeds members done) (node : α)
    (flow : Option Flow) :
    Tracks graph seeds members (done ++ [⟨index, node, flow⟩])
      ({ frontier with ready := rest }.settleAll members (flow == some Flow.pass)
        (graph.dependentSlots index)) := by
  obtain ⟨hmember, hnew, _⟩ := (htracks.mem_ready index).mp (hready ▸ List.mem_cons_self)
  have hdone : (done ++ [Settling.mk index node flow]).map (·.index) =
      done.map (·.index) ++ [index] := by
    rw [List.map_append]
    rfl
  have htold := htracks.told hsound hscoped hready (flow == some Flow.pass)
  constructor
  · rw [htold.size_pending, htracks.size_pending]
  · rw [htold.size_wanted, htracks.size_wanted]
  · intro other hother hopen
    rw [hdone, List.mem_append, not_or] at hopen
    rw [htold.pending, htracks.pending_eq hsound hmember hnew hother hopen.1, hdone]
    simp only [hscoped.mem_dependents_iff hsound hmember, Nat.add_sub_cancel]
  · rw [htold.ready, List.nodup_append]
    refine ⟨?_, (List.nodup_cons.mp (hready ▸ htracks.ready_nodup)).2, ?_⟩
    · exact List.nodup_reverse.mpr (((hsound.dependents_nodup index).filter _).filter _)
    · rintro other hother _ hwaiting rfl
      rw [List.mem_reverse, List.mem_filter, hscoped.mem_dependents_iff hsound hmember] at hother
      have hall := ((htracks.mem_ready other).mp (hready ▸ List.mem_cons_of_mem _ hwaiting)).2.2
      exact hnew (hall index hother.1 hmember)
  · intro other
    rw [hdone]
    exact htracks.mem_ready_told hsound hscoped hready hsettled htold other
  · intro other
    rw [htold.wanted, hscoped.mem_dependents_iff hsound hmember, htracks.wanted, or_assoc,
      exists_pass_snoc, beq_iff_eq]

end Next

theorem Tracks.all_settled (hsound : graph.Sound) (hscoped : Scoped graph members)
    (htracks : Tracks graph seeds members done frontier) (hready : frontier.ready = [])
    {index : Nat} (hmember : Marked members index) : index ∈ done.map (·.index) := by
  by_contra hopen
  -- Of the slots that are left, one reads no other; it would be ready.
  have hne : (List.range graph.slots.size).filter (fun other =>
      members.getD other false && decide (other ∉ done.map (·.index))) ≠ [] := by
    refine List.ne_nil_of_mem (a := index) (List.mem_filter.mpr ⟨?_, ?_⟩)
    · exact List.mem_range.mpr (hscoped.lt hmember)
    · rw [Bool.and_eq_true, decide_eq_true_eq]
      exact ⟨hmember, hopen⟩
  obtain ⟨least, hleast, hminimal⟩ := hsound.acyclic.exists_minimal hne
  simp only [List.mem_filter, Bool.and_eq_true, decide_eq_true_eq] at hleast hminimal
  have hwaiting : least ∈ frontier.ready := by
    refine (htracks.mem_ready least).mpr ⟨hleast.2.1, hleast.2.2, fun source hfeeds hsource => ?_⟩
    by_contra hlate
    have hlt := hscoped.lt hsource
    exact hminimal source ⟨List.mem_range.mpr hlt, hsource, hlate⟩ (.single hfeeds)
  rw [hready] at hwaiting
  exact absurd hwaiting List.not_mem_nil

theorem Settled.marked (hsettled : Settled graph seeds members done) {index : Nat}
    (hindex : index ∈ done.map (·.index)) : Marked members index := by
  obtain ⟨settling, hmem, rfl⟩ := List.mem_map.mp hindex
  exact hsettled.member settling hmem

theorem Settled.all_settled (hsettled : Settled graph seeds members done)
    (hscoped : Scoped graph members) (hfull : graph.slots.size ≤ done.length) {index : Nat}
    (hmember : Marked members index) : index ∈ done.map (·.index) := by
  have hsub : done.map (·.index) ⊆ List.range graph.slots.size := by
    intro other hother
    obtain ⟨settling, hmem, rfl⟩ := List.mem_map.mp hother
    exact List.mem_range.mpr (hsettled.holds settling hmem).lt
  have hperm :=
    (List.subperm_of_subset hsettled.nodup hsub).perm_of_length_le (by simpa using hfull)
  exact hperm.mem_iff.mpr (List.mem_range.mpr (hscoped.lt hmember))

theorem Tracks.ready_eq_nil (htracks : Tracks graph seeds members done frontier)
    (hsettled : Settled graph seeds members done) (hscoped : Scoped graph members)
    (hfull : graph.slots.size ≤ done.length) : frontier.ready = [] := by
  refine List.eq_nil_iff_forall_not_mem.mpr fun index hready => ?_
  obtain ⟨hmember, hopen, _⟩ := (htracks.mem_ready index).mp hready
  exact hopen (hsettled.all_settled hscoped hfull hmember)

end Step

/-! Taking the next slot. -/

/-- A round of a walk takes an occupied slot, and each dependent it tells is waiting to be told. -/
structure Takes (graph : Graph α) (members : Array Bool) (frontier : Frontier) (index : Nat)
    (rest : List Nat) (slot : Slot α) : Prop where
  ready : frontier.ready = index :: rest
  occupied : graph.slot? index = some slot
  nodup : slot.dependents.Nodup
  lt : ∀ dependent ∈ slot.dependents, dependent < graph.slots.size
  waits : ∀ dependent ∈ slot.dependents, Marked members dependent →
    0 < frontier.pending.getD dependent 0

/-- A slot that comes next and is to be visited. -/
structure Upcoming (graph : Graph α) (seeds : List Nat) (members : Array Bool)
    (done : List (Settling α)) (index : Nat) : Prop where
  member : Marked members index
  fresh : index ∉ done.map (·.index)
  closed : ∀ source, graph.Feeds source index → Marked members source →
    source ∈ done.map (·.index)
  wanted : index ∈ seeds ∨
    ∃ source ∈ done, source.flow = some .pass ∧ graph.Feeds source.index index

section Round

variable {graph : Graph α} {seeds : List Nat} {members : Array Bool} {done : List (Settling α)}
  {frontier : Frontier} {index : Nat} {rest : List Nat} {slot : Slot α}

theorem Tracks.exists_takes (htracks : Tracks graph seeds members done frontier)
    (hsettled : Settled graph seeds members done) (hsound : graph.Sound)
    (hscoped : Scoped graph members) (hready : frontier.ready = index :: rest) :
    ∃ slot, Takes graph members frontier index rest slot := by
  obtain ⟨hmember, hnew, _⟩ := (htracks.mem_ready index).mp (hready ▸ List.mem_cons_self)
  obtain ⟨_, slot, hslot, _⟩ := hscoped.holds hmember
  have hdependents := dependentSlots_of_slot? hslot
  have hfeeds : ∀ dependent ∈ slot.dependents, graph.Feeds index dependent :=
    fun dependent hmem => hsound.feeds_iff.mpr (hdependents ▸ hmem)
  refine ⟨slot, hready, hslot, hdependents ▸ hsound.dependents_nodup index, ?_, ?_⟩
  · intro dependent hmem
    exact (hfeeds dependent hmem).target_lt
  · intro dependent hmem hmarked
    have hopen := hsettled.open_of_feeds hmember hnew (hfeeds dependent hmem)
    rw [htracks.pending dependent hmarked hopen, List.countP_pos_iff]
    exact ⟨index, hfeeds dependent hmem, by simpa [Marked, hnew] using hmember⟩

theorem Takes.upcoming (htakes : Takes graph members frontier index rest slot)
    (htracks : Tracks graph seeds members done frontier) (hwanted : Marked frontier.wanted index) :
    Upcoming graph seeds members done index := by
  obtain ⟨hmember, hnew, hclosed⟩ :=
    (htracks.mem_ready index).mp (htakes.ready ▸ List.mem_cons_self)
  exact ⟨hmember, hnew, hclosed, (htracks.wanted index).mp hwanted⟩

theorem Takes.snoc (htakes : Takes graph members frontier index rest slot)
    (hsettled : Settled graph seeds members done)
    (htracks : Tracks graph seeds members done frontier) (hsound : graph.Sound)
    (hscoped : Scoped graph members) (flow : Option Flow)
    (hflow : flow.isSome ↔ Marked frontier.wanted index) :
    Settled graph seeds members (done ++ [⟨index, slot.node, flow⟩]) ∧
      Tracks graph seeds members (done ++ [⟨index, slot.node, flow⟩])
        ({ frontier with ready := rest }.settleAll members (flow == some Flow.pass)
          slot.dependents) := by
  refine ⟨hsettled.snoc hsound hscoped htracks htakes.ready ⟨slot, htakes.occupied, rfl⟩ hflow, ?_⟩
  rw [← dependentSlots_of_slot? htakes.occupied]
  exact htracks.snoc hsound hscoped htakes.ready hsettled slot.node flow

end Round

end RegionLayout.Graph
