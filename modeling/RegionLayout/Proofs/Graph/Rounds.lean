import RegionLayout.Proofs.Graph.Searches

/-!
Rounds of a traversal. A traversal counts, for every slot, the prerequisites in scope that are not
settled, and counts them down once for each of their edges. On a sound graph no count falls below
zero, no access fails, and each slot in scope is taken from the stack once, unless the visitor fails
first.
-/

namespace RegionLayout.Graph

open Relation

variable {α ε σ : Type}

/-- What a traversal keeps from round to round. -/
structure Round where
  stack : List Nat
  /-- For each slot, how many of its prerequisites in scope are not settled. -/
  pending : Array Nat
  /-- For each slot, how many of its prerequisites passed their output on. -/
  live : Array Nat

namespace Guarded

def countUp (counts : Array Nat) (index : Nat) : Except Fault (Array Nat) := do
  let count ← fetch counts index
  let more ← word (count + 1)
  put counts index more

def countDown (counts : Array Nat) (index : Nat) : Except Fault (Array Nat) := do
  match ← fetch counts index with
  | 0 => throw (.underflow index)
  | left + 1 => put counts index left

def countPassed (passes : Bool) (counts : Array Nat) (index : Nat) : Except Fault (Array Nat) :=
  if passes then countUp counts index else .ok counts

/-- Tells a dependent that one of its prerequisites is settled, if it is in scope. -/
def tell (members : Array Bool) (passes : Bool) (round : Round) (dependent : Nat) :
    Except Fault Round := do
  let member ← fetch members dependent
  if member then
    let live ← countPassed passes round.live dependent
    let pending ← countDown round.pending dependent
    let left ← fetch pending dependent
    return ⟨if left = 0 then dependent :: round.stack else round.stack, pending, live⟩
  else return round

/-- Whether a slot is asked for or something was passed on to it. -/
def satisfied (requested : Array Bool) (live : Array Nat) (index : Nat) : Except Fault Bool := do
  let asked ← fetch requested index
  if asked then return true
  else
    let count ← fetch live index
    return decide (0 < count)

/-- Takes slots from the stack until it is empty or the visitor fails, and lists those it took. -/
def walk (graph : Graph α) (members requested : Array Bool) (visit : Visitor α ε σ) :
    Nat → Round → List Nat → σ → Except Fault (List Nat × Except ε Unit × σ)
  | 0, round, popped, state =>
    if round.stack = [] then .ok (popped, .ok (), state) else .error .unfinished
  | fuel + 1, round, popped, state =>
    match round.stack with
    | [] => .ok (popped, .ok (), state)
    | index :: rest => do
      let popped := popped ++ [index]
      let round := { round with stack := rest }
      match ← fetch graph.slots index with
      | none => walk graph members requested visit fuel round popped state
      | some slot =>
        let visits ← satisfied requested round.live index
        if visits then
          match visit slot.node state with
          | (.error failure, state) => return (popped, .error failure, state)
          | (.ok flow, state) =>
            let round ← slot.dependents.foldlM (tell members (flow == .pass)) round
            walk graph members requested visit fuel round popped state
        else
          let round ← slot.dependents.foldlM (tell members false) round
          walk graph members requested visit fuel round popped state

def traverseFrom [DecidableEq α] (graph : Graph α) (starts : List α) (visit : Visitor α ε σ)
    (state : σ) : Except Fault (List Nat × Except ε Unit × σ) := do
  let seeds ← present graph starts
  if seeds = [] then return ([], .ok (), state)
  else
    let requested ← seeds.foldlM (fun requested seed => put requested seed true)
      (Array.replicate graph.slots.size false)
    let scope ← scope graph seeds
    let stack ← sift scope.pending (· == 0) seeds
    walk graph scope.members requested visit graph.slots.size
      ⟨stack, scope.pending, Array.replicate graph.slots.size 0⟩ [] state

/-! Single rounds. -/

/-- A count that is kept beside the slots goes down where it is not zero. -/
theorem countDown_eq {counts : Array Nat} {index : Nat} (hlt : index < counts.size)
    (hpos : 0 < counts.getD index 0) :
    countDown counts index = .ok (counts.setIfInBounds index (counts.getD index 0 - 1)) := by
  obtain ⟨left, hleft⟩ := Nat.exists_eq_add_of_lt hpos
  rw [countDown, fetch_eq 0 hlt, ok_bind, hleft]
  rw [Nat.zero_add, Nat.add_sub_cancel]
  exact put_eq hlt left

theorem countPassed_eq {counts : Array Nat} {index : Nat} (hlt : index < counts.size)
    (hfits : counts.getD index 0 + 1 < 2 ^ 32) (passes : Bool) :
    countPassed passes counts index =
      .ok (counts.setIfInBounds index (counts.getD index 0 + if passes then 1 else 0)) := by
  cases passes with
  | true =>
      rw [countPassed, if_pos rfl, countUp, fetch_eq 0 hlt, ok_bind, word_eq hfits, ok_bind,
        put_eq hlt]
      rfl
  | false =>
      refine congrArg Except.ok ?_
      simp [Array.setIfInBounds, hlt]

theorem getD_setIfInBounds {counts : Array Nat} {index : Nat} (hlt : index < counts.size)
    (count other : Nat) : (counts.setIfInBounds index count).getD other 0 =
      if other = index then count else counts.getD other 0 := by
  simp only [Array.getD_eq_getD_getElem?, Array.getElem?_setIfInBounds]
  by_cases heq : index = other
  · simp [← heq, hlt]
  · simp [heq, Ne.symm heq]

/-- A round keeps what a frontier keeps. Its two counts together are bounded, so that neither
outgrows a word. -/
structure Mirrors (graph : Graph α) (requested : Array Bool) (frontier : Frontier)
    (round : Round) : Prop where
  stack : round.stack = frontier.ready
  pending : round.pending = frontier.pending
  size_pending : frontier.pending.size = graph.slots.size
  size_wanted : frontier.wanted.size = graph.slots.size
  size_live : round.live.size = graph.slots.size
  wanted : ∀ index, Marked frontier.wanted index ↔
    Marked requested index ∨ 0 < round.live.getD index 0
  balanced : ∀ index, round.live.getD index 0 + frontier.pending.getD index 0 ≤ graph.slots.size

namespace Mirrors

variable {graph : Graph α} {requested members : Array Bool} {frontier : Frontier} {round : Round}

theorem take (hmirrors : Mirrors graph requested frontier round) (rest : List Nat) :
    Mirrors graph requested { frontier with ready := rest } { round with stack := rest } :=
  { hmirrors with stack := rfl }

theorem satisfied_eq (hmirrors : Mirrors graph requested frontier round) {index : Nat}
    (hrequested : requested.size = graph.slots.size) (hlt : index < graph.slots.size) :
    satisfied requested round.live index = .ok (frontier.wanted.getD index false) := by
  have hwanted := hmirrors.wanted index
  rw [satisfied, fetch_eq false (hrequested ▸ hlt), ok_bind]
  by_cases hasked : requested.getD index false = true
  · rw [if_pos hasked, hwanted.mpr (.inl hasked)]
    rfl
  · rw [if_neg hasked, fetch_eq 0 (hmirrors.size_live ▸ hlt), ok_bind]
    refine congrArg Except.ok (Bool.eq_iff_iff.mpr ?_)
    rw [decide_eq_true_iff]
    exact (hwanted.trans (or_iff_right hasked)).symm

/-- A dependent that waits is told without a fault. -/
theorem exists_tell (hmirrors : Mirrors graph requested frontier round)
    (hfits : graph.Addressable) (hmembers : members.size = graph.slots.size) (passes : Bool)
    {dependent : Nat} (hmember : Marked members dependent)
    (hwaits : 0 < frontier.pending.getD dependent 0) :
    ∃ next, tell members passes round dependent = .ok next ∧
      Mirrors graph requested (frontier.settle passes dependent) next := by
  have hlt : dependent < graph.slots.size := hmembers ▸ hmember.lt
  have hbalanced := hmirrors.balanced dependent
  have hcount : round.live.getD dependent 0 + 1 < 2 ^ 32 :=
    (show _ ≤ graph.slots.size by omega).trans_lt hfits
  have hup := countPassed_eq (hmirrors.size_live ▸ hlt) hcount passes
  have hdown := countDown_eq (hmirrors.size_pending ▸ hlt) hwaits
  rw [tell, fetch_eq false (hmembers ▸ hlt), ok_bind, if_pos (id hmember : _ = true), hup, ok_bind,
    hmirrors.pending, hdown, ok_bind, fetch_eq 0, ok_bind, getD_setIfInBounds, if_pos rfl]
  · refine ⟨_, rfl, ?_, rfl, ?_, ?_, ?_, fun index => ?_, fun index => ?_⟩
    · rw [Frontier.ready_settle, hmirrors.stack]
    · rw [Frontier.size_pending_settle, hmirrors.size_pending]
    · rw [Frontier.size_wanted_settle, hmirrors.size_wanted]
    · exact Array.size_setIfInBounds.trans hmirrors.size_live
    · rw [Frontier.marked_wanted_settle _ _ (hmirrors.size_wanted ▸ hlt), hmirrors.wanted,
        getD_setIfInBounds (hmirrors.size_live ▸ hlt), or_assoc]
      refine or_congr_right ?_
      by_cases heq : index = dependent
      · cases passes <;> simp [heq]
      · simp [heq]
    · have hold := hmirrors.balanced index
      rw [Frontier.pending_settle _ _ (hmirrors.size_pending ▸ hlt),
        getD_setIfInBounds (hmirrors.size_live ▸ hlt)]
      by_cases heq : index = dependent
      · subst heq
        simp only [↓reduceIte]
        split <;> omega
      · simpa [heq] using hold
  · exact hmirrors.size_pending ▸ hlt
  · rwa [Array.size_setIfInBounds, hmirrors.size_pending]

/-- All dependents of a slot are told without a fault, those out of scope in vain. -/
theorem exists_tells (hmirrors : Mirrors graph requested frontier round)
    (hfits : graph.Addressable) (hmembers : members.size = graph.slots.size) (passes : Bool)
    {dependents : List Nat} (hnodup : dependents.Nodup)
    (hlt : ∀ dependent ∈ dependents, dependent < graph.slots.size)
    (hwaits : ∀ dependent ∈ dependents, Marked members dependent →
      0 < frontier.pending.getD dependent 0) :
    ∃ next, dependents.foldlM (tell members passes) round = .ok next ∧
      Mirrors graph requested (frontier.settleAll members passes dependents) next := by
  induction dependents generalizing frontier round with
  | nil => exact ⟨round, rfl, hmirrors⟩
  | cons first rest ih =>
      obtain ⟨hfirst, hrest⟩ := List.nodup_cons.mp hnodup
      obtain ⟨hfirstLt, hrestLt⟩ := List.forall_mem_cons.mp hlt
      obtain ⟨hfirstWaits, hrestWaits⟩ := List.forall_mem_cons.mp hwaits
      rw [List.foldlM_cons, Frontier.settleAll, List.filter_cons]
      by_cases hmember : members.getD first false = true
      · obtain ⟨next, heq, hnext⟩ :=
          hmirrors.exists_tell hfits hmembers passes hmember (hfirstWaits hmember)
        rw [heq, ok_bind, if_pos hmember, List.foldl_cons]
        refine ih hnext hrest hrestLt fun dependent hdependent hmarked => ?_
        -- Each dependent is told once, so that those after the first still wait.
        have hne : dependent ≠ first := fun heq => hfirst (heq ▸ hdependent)
        rw [Frontier.pending_settle _ _ (hmirrors.size_pending ▸ hfirstLt), if_neg hne]
        exact hrestWaits dependent hdependent hmarked
      · have heq : tell members passes round first = .ok round := by
          rw [tell, fetch_eq false (hmembers ▸ hfirstLt), ok_bind, if_neg hmember]
          rfl
        rw [heq, ok_bind, if_neg hmember]
        exact ih hmirrors hrest hrestLt hrestWaits

end Mirrors

/-! Whole walks. -/

/-- The slots that a traversal took from its stack: none twice, and none that is out of scope; all
in scope, unless the visitor failed. -/
structure Pops (within : Nat → Prop) (popped : List Nat) (outcome : Except ε Unit) : Prop where
  nodup : popped.Nodup
  inside : ∀ index ∈ popped, within index
  complete : outcome = .ok () → ∀ index, within index → index ∈ popped

section Walk

variable {graph : Graph α} {seeds : List Nat} {members requested : Array Bool}
  {done : List (Settling α)} {frontier : Frontier}

theorem pops_of_ready_nil (hsound : graph.Sound) (hscoped : Scoped graph members)
    (hsettled : Settled graph seeds members done)
    (htracks : Tracks graph seeds members done frontier) (hready : frontier.ready = []) :
    Pops (Marked members) (done.map (·.index)) (.ok () : Except ε Unit) where
  nodup := hsettled.nodup
  inside _ := hsettled.marked
  complete _ _ := htracks.all_settled hsound hscoped hready

theorem pops_of_failure {index : Nat} {rest : List Nat}
    (hsettled : Settled graph seeds members done)
    (htracks : Tracks graph seeds members done frontier) (hready : frontier.ready = index :: rest)
    (failure : ε) : Pops (Marked members) (done.map (·.index) ++ [index]) (.error failure) := by
  obtain ⟨hmember, hopen, _⟩ := (htracks.mem_ready index).mp (hready ▸ List.mem_cons_self)
  refine ⟨?_, fun other hother => ?_, fun hok => by cases hok⟩
  · exact hsettled.nodup.append (List.nodup_singleton index) (by simpa using hopen)
  · rcases List.mem_append.mp hother with hold | hnew
    · exact hsettled.marked hold
    · exact List.mem_singleton.mp hnew ▸ hmember

section Taken

variable {round : Round} {index : Nat} {rest : List Nat} {slot : Slot α}

/-- While a slot can be taken there is fuel left, as every round settles one. -/
theorem exists_fuel_of_takes (hscoped : Scoped graph members)
    (hsettled : Settled graph seeds members done)
    (htracks : Tracks graph seeds members done frontier)
    (htakes : Takes graph members frontier index rest slot) {fuel : Nat}
    (hfuel : graph.slots.size ≤ fuel + done.length) (node : α) (flow : Option Flow) :
    ∃ less, fuel = less + 1 ∧
      graph.slots.size ≤ less + (done ++ [Settling.mk index node flow]).length := by
  cases fuel with
  | zero =>
      have hnone := htracks.ready_eq_nil hsettled hscoped (by simpa using hfuel)
      exact absurd (htakes.ready.symm.trans hnone) (List.cons_ne_nil index rest)
  | succ less =>
      refine ⟨less, rfl, ?_⟩
      rw [List.length_append, List.length_singleton]
      omega

/-- All dependents of the slot that is taken are told without a fault. -/
theorem exists_told_of_takes (hfits : graph.Addressable)
    (hmembers : members.size = graph.slots.size) (hmirrors : Mirrors graph requested frontier round)
    (htakes : Takes graph members frontier index rest slot) (passes : Bool) :
    ∃ next, slot.dependents.foldlM (tell members passes) { round with stack := rest } = .ok next ∧
      Mirrors graph requested
        ({ frontier with ready := rest }.settleAll members passes slot.dependents) next :=
  (hmirrors.take rest).exists_tells hfits hmembers passes htakes.nodup htakes.lt htakes.waits

/-- One round: the slot on top is taken, and visited if it is wanted. -/
theorem walk_of_takes (hrequested : requested.size = graph.slots.size)
    (hmirrors : Mirrors graph requested frontier round)
    (htakes : Takes graph members frontier index rest slot) (visit : Visitor α ε σ) (fuel : Nat)
    (popped : List Nat) (state : σ) :
    walk graph members requested visit (fuel + 1) round popped state =
      if frontier.wanted.getD index false then
        match visit slot.node state with
        | (.error failure, state) => .ok (popped ++ [index], .error failure, state)
        | (.ok flow, state) =>
          slot.dependents.foldlM (tell members (flow == .pass)) { round with stack := rest } >>=
            fun next => walk graph members requested visit fuel next (popped ++ [index]) state
      else
        slot.dependents.foldlM (tell members false) { round with stack := rest } >>=
          fun next => walk graph members requested visit fuel next (popped ++ [index]) state := by
  have hlt := slot?_eq_some_lt htakes.occupied
  simp only [walk, hmirrors.stack, htakes.ready, fetch_slots hlt, htakes.occupied, ok_bind,
    hmirrors.satisfied_eq hrequested hlt]
  rfl

end Taken

/-- A walk goes through without a fault, each of its rounds as the loop of the one that runs. -/
theorem exists_pops {visit : Visitor α ε σ} {state : σ} {log : List (α × Flow)}
    {result : Except ε Unit × σ} (hwalks : Walks graph members visit frontier state log result)
    (hsound : graph.Sound) (hfits : graph.Addressable) (hscoped : Scoped graph members)
    (hmembers : members.size = graph.slots.size) (hrequested : requested.size = graph.slots.size)
    {round : Round} (hsettled : Settled graph seeds members done)
    (htracks : Tracks graph seeds members done frontier)
    (hmirrors : Mirrors graph requested frontier round) {fuel : Nat}
    (hfuel : graph.slots.size ≤ fuel + done.length) :
    ∃ popped, walk graph members requested visit fuel round (done.map (·.index)) state =
        .ok (popped, result) ∧ Pops (Marked members) popped result.1 := by
  induction hwalks generalizing done round fuel with
  | @done frontier state hready =>
      refine ⟨done.map (·.index), ?_, pops_of_ready_nil hsound hscoped hsettled htracks hready⟩
      cases fuel <;> simp [walk, hmirrors.stack, hready]
  | @skip frontier index rest slot state log result htakes hwanted _ ih =>
      obtain ⟨less, rfl, hless⟩ :=
        exists_fuel_of_takes hscoped hsettled htracks htakes hfuel slot.node none
      obtain ⟨hsettled', htracks'⟩ := htakes.snoc hsettled htracks hsound hscoped none
        (iff_of_false Bool.false_ne_true hwanted)
      obtain ⟨next, htold, hmirrors'⟩ := exists_told_of_takes hfits hmembers hmirrors htakes false
      rw [walk_of_takes hrequested hmirrors htakes, if_neg (id hwanted : ¬_ = true), htold, ok_bind]
      simpa using ih hsettled' htracks' hmirrors' hless
  | @visit frontier index rest slot flow state middle log result htakes hwanted hvisit _ ih =>
      obtain ⟨less, rfl, hless⟩ :=
        exists_fuel_of_takes hscoped hsettled htracks htakes hfuel slot.node (some flow)
      obtain ⟨hsettled', htracks'⟩ := htakes.snoc hsettled htracks hsound hscoped (some flow)
        (iff_of_true rfl hwanted)
      obtain ⟨next, htold, hmirrors'⟩ :=
        exists_told_of_takes hfits hmembers hmirrors htakes (flow == .pass)
      rw [walk_of_takes hrequested hmirrors htakes, if_pos (id hwanted : _ = true), hvisit]
      simpa [htold, ok_bind] using ih hsettled' htracks' hmirrors' hless
  | @fail frontier index rest slot failure state final htakes hwanted hvisit =>
      obtain ⟨less, rfl, _⟩ :=
        exists_fuel_of_takes hscoped hsettled htracks htakes hfuel slot.node none
      refine ⟨_, ?_, pops_of_failure hsettled htracks htakes.ready failure⟩
      rw [walk_of_takes hrequested hmirrors htakes, if_pos (id hwanted : _ = true), hvisit]

end Walk

/-! Traversals. -/

section Traverse

variable [DecidableEq α] {graph : Graph α}

omit [DecidableEq α] in
theorem pending_le_size (hsound : graph.Sound) (seeds : List Nat) (index : Nat) :
    (graph.scope seeds).pending.getD index 0 ≤ graph.slots.size := by
  by_cases hmember : Marked (graph.scope seeds).members index
  · rw [pending_scope hmember]
    exact List.countP_le_length.trans (length_prerequisites_le hsound index)
  · have hnone : ¬ (graph.markReaders seeds)[index]?.getD false = true := by
      simpa [Marked, Graph.scope] using hmember
    by_cases hlt : index < graph.slots.size <;> simp [Graph.scope, hlt, hnone]

omit [DecidableEq α] in
theorem mirrors_start (hsound : graph.Sound) {seeds : List Nat} (hnodup : seeds.Nodup)
    (hseeds : ∀ seed ∈ seeds, seed < graph.slots.size) :
    Mirrors graph (seeds.foldl (fun requested seed => requested.setIfInBounds seed true)
        (Array.replicate graph.slots.size false)) (.start (graph.scope seeds) seeds)
      ⟨(Frontier.start (graph.scope seeds) seeds).ready, (graph.scope seeds).pending,
        Array.replicate graph.slots.size 0⟩ := by
  have htracks := tracks_start hsound hnodup hseeds
  have hnone : ∀ index, (Array.replicate graph.slots.size 0).getD index 0 = 0 := by
    intro index
    by_cases hlt : index < graph.slots.size <;> simp [hlt]
  refine ⟨rfl, rfl, htracks.size_pending, htracks.size_wanted, Array.size_replicate,
    fun index => ?_, fun index => ?_⟩
  · rw [Frontier.start, size_members, hnone, or_iff_left (Nat.lt_irrefl 0)]
  · rw [hnone, Nat.zero_add]
    exact pending_le_size hsound seeds index

/-- Every traversal goes through without a fault and does what the one that runs does. -/
theorem exists_traverseFrom (hsound : graph.Sound) (hfits : graph.Addressable) (starts : List α)
    (visit : Visitor α ε σ) (state : σ) :
    ∃ popped, traverseFrom graph starts visit state =
        .ok (popped, graph.traverseFrom starts visit state) ∧
      Pops (Marked (graph.scope (graph.present starts)).members) popped
        (graph.traverseFrom starts visit state).1 := by
  have hlt : ∀ seed ∈ graph.present starts, seed < graph.slots.size := present_lt hsound
  rw [traverseFrom, present_eq hsound, ok_bind]
  by_cases hnone : graph.present starts = []
  · have hready : (Frontier.start (graph.scope (graph.present starts))
        (graph.present starts)).ready = [] := by simp [Frontier.start, hnone]
    have hresult : graph.traverseFrom starts visit state = (.ok (), state) := by
      rw [Graph.traverseFrom]
      cases graph.slots.size <;> simp [Graph.walk, hready]
    rw [if_pos hnone, hresult]
    refine ⟨[], rfl, List.nodup_nil, fun _ hindex => absurd hindex List.not_mem_nil,
      fun _ index hmember => ?_⟩
    obtain ⟨seed, hseed, _⟩ := (marked_markReaders_iff hsound hlt).mp hmember
    exact absurd (hnone ▸ hseed) List.not_mem_nil
  · have hrequested : (graph.present starts).foldlM (fun requested seed => put requested seed true)
        (Array.replicate graph.slots.size false) =
          .ok ((graph.present starts).foldl
            (fun requested seed => requested.setIfInBounds seed true)
            (Array.replicate graph.slots.size false)) :=
      foldlM_eq (fun requested => requested.size = graph.slots.size)
        (fun requested hsize seed hseed => ⟨put_eq (hsize ▸ hlt seed hseed) true,
          Array.size_setIfInBounds.trans hsize⟩) Array.size_replicate
    rw [if_neg hnone, hrequested, ok_bind, scope_present_eq hsound hfits, ok_bind,
      sift_pending_eq hsound, ok_bind]
    obtain ⟨log, htraverses⟩ := exists_traverses hsound starts visit state
    exact exists_pops htraverses.walks hsound hfits (scoped_scope starts hsound)
      (size_members graph _) ((size_foldl_setIfInBounds id _ _).trans Array.size_replicate)
      (settled_nil (graph.present starts) _) (tracks_start hsound nodup_present hlt)
      (mirrors_start hsound nodup_present hlt) (Nat.le_refl _)

end Traverse

end Guarded

/-! All operations. -/

/-- A slot is downstream of a start that is present. -/
def InScope (graph : Graph α) (starts : List α) (index : Nat) : Prop :=
  ∃ start ∈ starts, ∃ seed, graph.Holds seed start ∧ ReflTransGen graph.Feeds seed index

/-- No operation on a graph runs into a fault, whatever it is given, and each does what the one that
runs does. An operation that adds nodes has to leave the graph addressable. -/
structure Faultless [DecidableEq α] (graph : Graph α) : Prop where
  addNode : ∀ node, (graph.addNode node).2.Addressable →
    Guarded.addNode graph node = .ok (graph.addNode node)
  removeNode : ∀ node, Guarded.removeNode graph node = .ok (graph.removeNode node)
  declare : ∀ prerequisite dependent,
    (∀ linked, graph.declare prerequisite dependent = .ok linked → linked.Addressable) →
    Guarded.declare graph prerequisite dependent = .ok (graph.declare prerequisite dependent)
  revoke : ∀ prerequisite dependent,
    Guarded.revoke graph prerequisite dependent = .ok (graph.revoke prerequisite dependent)
  prerequisites : ∀ node,
    Guarded.neighbours graph .prerequisites node = .ok (graph.prerequisites node)
  dependents : ∀ node, Guarded.neighbours graph .dependents node = .ok (graph.dependents node)
  isSource : ∀ node, Guarded.isSource graph node = .ok (graph.isSource node)
  dependsOn : ∀ reader target,
    Guarded.dependsOn graph reader target = .ok (graph.dependsOn reader target)
  present : ∀ starts, Guarded.present graph starts = .ok (graph.present starts)
  scope : ∀ starts, Guarded.scope graph (graph.present starts) =
    .ok (graph.scope (graph.present starts))
  independent : ∀ starts, Guarded.independent graph starts = .ok (graph.independent starts)
  traverseFrom : ∀ {ε σ : Type} (starts : List α) (visit : Visitor α ε σ) (state : σ),
    ∃ popped, Guarded.traverseFrom graph starts visit state =
        .ok (popped, graph.traverseFrom starts visit state) ∧
      Guarded.Pops (graph.InScope starts) popped (graph.traverseFrom starts visit state).1

variable [DecidableEq α]

theorem inScope_iff {graph : Graph α} (hsound : graph.Sound) {starts : List α} {index : Nat} :
    Marked (graph.scope (graph.present starts)).members index ↔ graph.InScope starts index := by
  rw [Graph.scope, marked_markReaders_iff hsound (present_lt hsound)]
  constructor
  · rintro ⟨seed, hseed, hpath⟩
    obtain ⟨start, hstart, hholds⟩ := (mem_present_iff hsound).mp hseed
    exact ⟨start, hstart, seed, hholds, hpath⟩
  · rintro ⟨start, hstart, seed, hholds, hpath⟩
    exact ⟨seed, (mem_present_iff hsound).mpr ⟨start, hstart, hholds⟩, hpath⟩

theorem faultless_after (edits : List (GraphEdit α)) (hfits : (after edits).Addressable) :
    Faultless (after edits) := by
  have hsound := sound_after edits
  exact {
    addNode := fun _ => Guarded.addNode_eq hsound
    removeNode := Guarded.removeNode_eq hsound
    declare := fun _ _ => Guarded.declare_eq hsound
    revoke := Guarded.revoke_eq hsound
    prerequisites := fun node => prerequisites_eq (after edits) node ▸
      Guarded.neighbours_eq hsound .prerequisites node
    dependents := fun node => dependents_eq (after edits) node ▸
      Guarded.neighbours_eq hsound .dependents node
    isSource := Guarded.isSource_eq hsound
    dependsOn := Guarded.dependsOn_eq hsound
    present := Guarded.present_eq hsound
    scope := Guarded.scope_present_eq hsound hfits
    independent := Guarded.independent_eq hsound hfits
    traverseFrom := fun starts visit state => by
      obtain ⟨popped, heq, hpops⟩ := Guarded.exists_traverseFrom hsound hfits starts visit state
      refine ⟨popped, heq, hpops.nodup, fun index hindex => ?_, fun hok index hindex => ?_⟩
      · exact (inScope_iff hsound).mp (hpops.inside index hindex)
      · exact hpops.complete hok index ((inScope_iff hsound).mpr hindex) }

/-- A graph with a diamond in it, and with a slot that was filled twice. -/
theorem faultless_diamond :
    (after [.declare 0 1, .remove 0, .declare 1 2, .declare 1 3, .declare 2 4,
      .declare 3 4]).Addressable ∧
    Faultless (after [.declare 0 1, .remove 0, .declare 1 2, .declare 1 3, .declare 2 4,
      .declare 3 4]) :=
  ⟨by decide, faultless_after _ (by decide)⟩

/-! Out of step, the two directions of the edges would make a traversal fail. -/

example : Guarded.tell #[true] true ⟨[], #[0], #[0]⟩ 0 = .error (.underflow 0) := rfl

example : Guarded.nodeAt (⟨#[none], [(1, 0)], []⟩ : Graph Nat) 0 = .error (.vacated 0) := rfl

end RegionLayout.Graph
