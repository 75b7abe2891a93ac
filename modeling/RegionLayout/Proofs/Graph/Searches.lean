import RegionLayout.Proofs.Graph.Accesses

/-!
Searches of prerequisite graphs. A search takes slots from a stack, marks each when it is first
taken, and pushes the neighbours that are not marked; a slot can be pushed several times before it
is taken. It marks what its seeds lead to, however it orders the stack, and so the questions that
are answered by searching agree with those that are answered by a flood.
-/

namespace RegionLayout.Graph

open Relation

variable {α : Type}

/-! The loop. -/

/-- One slot leads to another that is listed by it. -/
def Lists (neighbours : Nat → List Nat) (first second : Nat) : Prop :=
  second ∈ neighbours first

/-- How a search ended. -/
structure Searched where
  /-- Whether the slot that was searched for was taken. -/
  found : Bool
  marks : Array Bool
  /-- The marked slots, in the order in which they were marked. -/
  met : List Nat

namespace Guarded

/-- The neighbours of a slot that are not marked yet, the last of them first. -/
def unmarked (slots : Array (Option (Slot α))) (direction : Direction) (marks : Array Bool)
    (index : Nat) : Except Fault (List Nat) := do
  match ← fetch slots index with
  | none => return []
  | some slot =>
    let fresh ← sift marks (!·) (direction.neighbours slot)
    return fresh.reverse

/-- Takes slots from a stack until it is empty or the goal is on top of it. -/
def search (slots : Array (Option (Slot α))) (direction : Direction) (goal : Option Nat) :
    List Nat → Array Bool → List Nat → Except Fault Searched
  | [], marks, met => .ok ⟨false, marks, met⟩
  | index :: rest, marks, met =>
    if goal = some index then .ok ⟨true, marks, met⟩
    else
      match _ : marks[index]? with
      | none => .error (.outOfBounds index)
      | some true => search slots direction goal rest marks met
      | some false =>
        match unmarked slots direction (marks.setIfInBounds index true) index with
        | .error fault => .error fault
        | .ok fresh =>
          search slots direction goal (fresh ++ rest) (marks.setIfInBounds index true)
            (met ++ [index])
termination_by stack marks => (marks.count false, stack.length)
decreasing_by
  · exact Prod.Lex.right _ (Nat.lt_succ_self _)
  · obtain ⟨hlt, hfalse⟩ := Array.getElem?_eq_some_iff.mp ‹marks[index]? = some false›
    have hcount := count_mark hlt (by simp [Marked, hlt, hfalse])
    exact Prod.Lex.left _ _ (by omega)

end Guarded

/-- What a search from some seeds keeps to: nothing is left out, and nothing is met but what the
seeds lead to. -/
structure Searches (neighbours : Nat → List Nat) (seeds stack : List Nat) (marks : Array Bool)
    (met : List Nat) : Prop where
  seeded : ∀ seed ∈ seeds, Marked marks seed ∨ seed ∈ stack
  closed : ∀ index, Marked marks index → ∀ other ∈ neighbours index,
    Marked marks other ∨ other ∈ stack
  downstream : ∀ index, Marked marks index ∨ index ∈ stack →
    ∃ seed ∈ seeds, ReflTransGen (Lists neighbours) seed index
  met_nodup : met.Nodup
  mem_met : ∀ index, index ∈ met ↔ Marked marks index

namespace Searches

variable {neighbours : Nat → List Nat} {seeds stack rest met : List Nat} {marks : Array Bool}
  {index size : Nat}

theorem start (neighbours : Nat → List Nat) (hstack : ∀ index, index ∈ stack ↔ index ∈ seeds) :
    Searches neighbours seeds stack (Array.replicate size false) [] where
  seeded seed hseed := .inr ((hstack seed).mpr hseed)
  closed _ hmarked := absurd hmarked not_marked_replicate
  downstream index hindex :=
    ⟨index, (hstack index).mp (hindex.resolve_left not_marked_replicate), .refl⟩
  met_nodup := List.nodup_nil
  mem_met _ := iff_of_false List.not_mem_nil not_marked_replicate

theorem skip (hsearches : Searches neighbours seeds (index :: rest) marks met)
    (hmarked : Marked marks index) : Searches neighbours seeds rest marks met := by
  have hdrop : ∀ {other}, Marked marks other ∨ other ∈ index :: rest →
      Marked marks other ∨ other ∈ rest := by
    rintro other (hother | hother)
    · exact .inl hother
    · rcases List.mem_cons.mp hother with rfl | hrest
      · exact .inl hmarked
      · exact .inr hrest
  exact {
    seeded := fun seed hseed => hdrop (hsearches.seeded seed hseed)
    closed := fun place hplace other hother => hdrop (hsearches.closed place hplace other hother)
    downstream := fun other hother =>
      hsearches.downstream other (hother.imp_right (List.mem_cons_of_mem index))
    met_nodup := hsearches.met_nodup
    mem_met := hsearches.mem_met }

/-- A slot that is taken for the first time is marked, and what it lists is pushed. -/
theorem mark (hsearches : Searches neighbours seeds (index :: rest) marks met)
    (hlt : index < marks.size) (hnew : ¬ Marked marks index) {fresh : List Nat}
    (hfresh : ∀ other, other ∈ fresh ↔
      other ∈ neighbours index ∧ ¬ Marked (marks.setIfInBounds index true) other) :
    Searches neighbours seeds (fresh ++ rest) (marks.setIfInBounds index true)
      (met ++ [index]) := by
  have hmarked : ∀ {other}, Marked (marks.setIfInBounds index true) other ↔
      Marked marks other ∨ other = index := by
    intro other
    rw [marked_setIfInBounds, and_iff_left hlt]
  have hkeep : ∀ {other}, Marked marks other ∨ other ∈ index :: rest →
      Marked (marks.setIfInBounds index true) other ∨ other ∈ fresh ++ rest := by
    rintro other (hother | hother)
    · exact .inl (hmarked.mpr (.inl hother))
    · rcases List.mem_cons.mp hother with rfl | hrest
      · exact .inl (hmarked.mpr (.inr rfl))
      · exact .inr (List.mem_append_right _ hrest)
  have hindex := hsearches.downstream index (.inr List.mem_cons_self)
  have hunmet : index ∉ met := fun hmet => hnew ((hsearches.mem_met index).mp hmet)
  exact {
    seeded := fun seed hseed => hkeep (hsearches.seeded seed hseed)
    closed := by
      intro place hplace other hother
      rcases hmarked.mp hplace with hold | rfl
      · exact hkeep (hsearches.closed place hold other hother)
      · by_cases hdone : Marked (marks.setIfInBounds place true) other
        · exact .inl hdone
        · exact .inr (List.mem_append_left _ ((hfresh other).mpr ⟨hother, hdone⟩))
    downstream := by
      rintro other (hother | hother)
      · rcases hmarked.mp hother with hold | rfl
        · exact hsearches.downstream other (.inl hold)
        · exact hindex
      · rcases List.mem_append.mp hother with hlisted | hrest
        · obtain ⟨seed, hseed, hpath⟩ := hindex
          exact ⟨seed, hseed, hpath.tail ((hfresh other).mp hlisted).1⟩
        · exact hsearches.downstream other (.inr (List.mem_cons_of_mem _ hrest))
    met_nodup := hsearches.met_nodup.append (List.nodup_singleton index) (by simpa using hunmet)
    mem_met := fun other => by
      rw [List.mem_append, List.mem_singleton, hsearches.mem_met, hmarked] }

/-- A search that has nothing left to take has marked what its seeds lead to. -/
theorem marked_iff (hsearches : Searches neighbours seeds [] marks met) :
    Marked marks index ↔ ∃ seed ∈ seeds, ReflTransGen (Lists neighbours) seed index := by
  constructor
  · exact fun hmarked => hsearches.downstream index (.inl hmarked)
  · rintro ⟨seed, hseed, hpath⟩
    induction hpath with
    | refl => exact (hsearches.seeded seed hseed).resolve_right List.not_mem_nil
    | tail _ hstep ih => exact (hsearches.closed _ ih _ hstep).resolve_right List.not_mem_nil

end Searches

/-- A search that went through: it took what it was searching for, or it marked all there is and
that is not among it. -/
inductive SearchEnds (neighbours : Nat → List Nat) (seeds : List Nat) (goal : Option Nat)
    (size : Nat) : Searched → Prop where
  | found {searched : Searched} {index : Nat} (hgoal : goal = some index)
      (hfound : searched.found = true)
      (hpath : ∃ seed ∈ seeds, ReflTransGen (Lists neighbours) seed index) :
      SearchEnds neighbours seeds goal size searched
  | exhausted {searched : Searched} (hfound : searched.found = false)
      (hsize : searched.marks.size = size)
      (hsearches : Searches neighbours seeds [] searched.marks searched.met)
      (hmissed : ∀ index, goal = some index → ¬ Marked searched.marks index) :
      SearchEnds neighbours seeds goal size searched

namespace Guarded

section Search

variable {graph : Graph α} {direction : Direction} {goal : Option Nat} {seeds : List Nat}

theorem search_skip {index : Nat} {rest met : List Nat} {marks : Array Bool}
    (hgoal : ¬ goal = some index) (hmark : marks[index]? = some true) :
    search graph.slots direction goal (index :: rest) marks met =
      search graph.slots direction goal rest marks met := by
  rw [search, if_neg hgoal]
  split <;> simp_all

theorem search_mark {index : Nat} {rest met fresh : List Nat} {marks : Array Bool}
    (hgoal : ¬ goal = some index) (hmark : marks[index]? = some false)
    (hfresh : unmarked graph.slots direction (marks.setIfInBounds index true) index = .ok fresh) :
    search graph.slots direction goal (index :: rest) marks met =
      search graph.slots direction goal (fresh ++ rest) (marks.setIfInBounds index true)
        (met ++ [index]) := by
  rw [search, if_neg hgoal]
  split <;> simp_all

variable (hsound : graph.Sound)

include hsound

theorem links_lt (direction : Direction) (index : Nat) :
    ∀ other ∈ graph.links direction index, other < graph.slots.size :=
  fun _ hother => (hsound.exists_holds_of_mem_links hother).choose_spec.lt

theorem unmarked_eq {marks : Array Bool} (hsize : marks.size = graph.slots.size) {index : Nat}
    (hlt : index < graph.slots.size) :
    unmarked graph.slots direction marks index =
      .ok ((graph.links direction index).filter fun other => !marks.getD other false).reverse := by
  rw [unmarked, fetch_slots hlt, ok_bind, links]
  cases hslot : graph.slot? index with
  | none => rfl
  | some slot =>
      have hbound := hsize ▸ lt_of_slot hsound hslot direction
      dsimp only
      rw [sift_eq false _ hbound]
      rfl

theorem exists_search (hseeds : ∀ seed ∈ seeds, seed < graph.slots.size) {stack met : List Nat}
    {marks : Array Bool} (hsize : marks.size = graph.slots.size)
    (hmissed : ∀ index, goal = some index → ¬ Marked marks index)
    (hsearches : Searches (graph.links direction) seeds stack marks met) :
    ∃ searched, search graph.slots direction goal stack marks met = .ok searched ∧
      SearchEnds (graph.links direction) seeds goal graph.slots.size searched := by
  have hlt : ∀ {index rest marks met},
      Searches (graph.links direction) seeds (index :: rest) marks met →
        index < graph.slots.size := by
    intro index rest marks met hsearches
    obtain ⟨seed, hseed, hpath⟩ := hsearches.downstream index (.inr List.mem_cons_self)
    rcases hpath.cases_tail with rfl | ⟨before, _, hlisted⟩
    · exact hseeds _ hseed
    · exact links_lt hsound direction before index hlisted
  -- Every call takes one slot, and the marks with the stack below it search on from the seeds.
  induction stack, marks, met using search.induct graph.slots direction goal with
  | case1 marks met => exact ⟨_, by rw [search], .exhausted rfl hsize hsearches hmissed⟩
  | case2 index rest marks met hgoal =>
      exact ⟨_, by rw [search, if_pos hgoal], .found hgoal rfl
        (hsearches.downstream index (.inr List.mem_cons_self))⟩
  | case3 index rest marks met hgoal hmark =>
      exact absurd (hsize ▸ hlt hsearches) (Array.getElem?_eq_none_iff.mp hmark).not_gt
  | case4 index rest marks met hgoal hmark ih =>
      rw [search_skip hgoal hmark]
      exact ih hsize hmissed (hsearches.skip (by simp [Marked, hmark]))
  | case5 index rest marks met hgoal hmark fault hfault =>
      rw [unmarked_eq hsound (Array.size_setIfInBounds.trans hsize) (hlt hsearches)] at hfault
      contradiction
  | case6 index rest marks met hgoal hmark fresh hfresh ih =>
      have hbound := hlt hsearches
      have hsize' : (marks.setIfInBounds index true).size = graph.slots.size :=
        Array.size_setIfInBounds.trans hsize
      rw [search_mark hgoal hmark hfresh]
      refine ih hsize' ?_ ?_
      · intro other hother hmarked
        rcases marked_setIfInBounds.mp hmarked with hold | ⟨rfl, _⟩
        · exact hmissed other hother hold
        · exact hgoal hother
      · refine hsearches.mark (hsize ▸ hbound) (by simp [Marked, hmark]) fun other => ?_
        rw [unmarked_eq hsound hsize' hbound] at hfresh
        obtain rfl := Except.ok.inj hfresh
        simp [Marked]

theorem exists_search_start (direction : Direction) (goal : Option Nat)
    (hseeds : ∀ seed ∈ seeds, seed < graph.slots.size) {stack : List Nat}
    (hstack : ∀ index, index ∈ stack ↔ index ∈ seeds) :
    ∃ searched, search graph.slots direction goal stack
        (Array.replicate graph.slots.size false) [] = .ok searched ∧
      SearchEnds (graph.links direction) seeds goal graph.slots.size searched :=
  exists_search hsound hseeds Array.size_replicate (fun _ _ => not_marked_replicate)
    (.start _ hstack)

end Search

/-! What is upstream. -/

section DependsOn

variable [DecidableEq α]

def dependsOn (graph : Graph α) (reader target : α) : Except Fault Bool := do
  match graph.indexOf? reader, graph.indexOf? target with
  | some start, some goal =>
    let searched ← search graph.slots .prerequisites (some goal) [start]
      (Array.replicate graph.slots.size false) []
    return searched.found
  | _, _ => return false

/-- Declares an edge; a declaration that would close a loop is an answer, not a fault. -/
def declare (graph : Graph α) (prerequisite dependent : α) :
    Except Fault (Except (CycleError α) (Graph α)) := do
  if prerequisite = dependent then return .error ⟨prerequisite, dependent⟩
  else
    let closes ← dependsOn graph prerequisite dependent
    if closes then return .error ⟨prerequisite, dependent⟩
    else
      let (source, graph) ← intern graph prerequisite
      let (target, graph) ← intern graph dependent
      let graph ← link graph source target
      return .ok graph

variable {graph : Graph α} (hsound : graph.Sound)

include hsound

theorem dependsOn_eq (reader target : α) :
    dependsOn graph reader target = .ok (graph.dependsOn reader target) := by
  unfold dependsOn Graph.dependsOn
  cases hstart : graph.indexOf? reader with
  | none => rfl
  | some start =>
      cases hgoal : graph.indexOf? target with
      | none => rfl
      | some goal =>
          have hseeds : ∀ seed ∈ [start], seed < graph.slots.size :=
            List.forall_mem_singleton.mpr (indexOf?_sound hsound hstart).lt
          obtain ⟨searched, heq, hends⟩ := exists_search_start hsound .prerequisites (some goal)
            hseeds (fun _ => Iff.rfl)
          have hmarked : Marked (graph.markRead [start]) goal ↔ _ :=
            marked_markRead_iff hsound hseeds
          have hpath : (∃ seed ∈ [start],
              ReflTransGen (Lists (graph.links .prerequisites)) seed goal) ↔
              ∃ seed ∈ [start], ReflTransGen graph.Feeds goal seed :=
            exists_congr fun seed => and_congr_right fun _ => reflTransGen_swap
          dsimp only
          rw [heq, ok_bind]
          refine congrArg Except.ok (Bool.eq_iff_iff.mpr ?_)
          rw [← hpath] at hmarked
          rw [← Marked, hmarked]
          cases hends with
          | found hindex hfound hfrom =>
              obtain rfl := Option.some.inj hindex
              exact iff_of_true hfound hfrom
          | exhausted hfound _ hsearches hmissed =>
              refine iff_of_false (by simp [hfound]) fun hfrom => ?_
              exact hmissed goal rfl (hsearches.marked_iff.mpr hfrom)

theorem declare_eq {prerequisite dependent : α}
    (hfits : ∀ linked, graph.declare prerequisite dependent = .ok linked → linked.Addressable) :
    declare graph prerequisite dependent = .ok (graph.declare prerequisite dependent) := by
  unfold declare Graph.declare at *
  by_cases heq : prerequisite = dependent
  · rw [if_pos heq, if_pos (.inl heq)]
    rfl
  · rw [if_neg heq, dependsOn_eq hsound, ok_bind]
    by_cases hdepends : graph.dependsOn prerequisite dependent = true
    · rw [if_pos hdepends, if_pos (.inr hdepends)]
      rfl
    · have hopen := not_or.mpr ⟨heq, hdepends⟩
      rw [if_neg hopen] at hfits
      rw [if_neg hdepends, if_neg hopen]
      have hfirst := addsNode_intern hsound prerequisite
      have hsecond := addsNode_intern hfirst.sound dependent
      -- The graph grows by either node, and so it was addressable all along.
      have hlast : ((graph.intern prerequisite).2.intern dependent).2.Addressable := by
        have hlinked := hfits _ rfl
        rwa [Addressable, keepsNodes_link.size] at hlinked
      have hmiddle : (graph.intern prerequisite).2.Addressable :=
        (size_le_intern _ dependent).trans_lt hlast
      rw [intern_eq hsound hmiddle, ok_bind]
      dsimp only
      rw [intern_eq hfirst.sound hlast, ok_bind,
        link_eq (hsecond.holds_mono hfirst.holds).lt hsecond.holds]
      rfl

end DependsOn

/-! What is downstream. -/

/-- For each slot that was met, how many of its prerequisites are members. -/
def counts (graph : Graph α) (members : Array Bool) (met : List Nat) :
    Except Fault (Array Nat) :=
  met.foldlM (fun pending index => do
    match ← fetch graph.slots index with
    | none => return pending
    | some slot =>
      let within ← sift members id slot.prerequisites
      let count ← word within.length
      put pending index count) (Array.replicate graph.slots.size 0)

def scope (graph : Graph α) (seeds : List Nat) : Except Fault Scope := do
  let searched ← search graph.slots .dependents none seeds.reverse
    (Array.replicate graph.slots.size false) []
  let pending ← counts graph searched.marks searched.met
  return ⟨searched.marks, pending⟩

section Scope

variable {graph : Graph α} (hsound : graph.Sound)

include hsound

theorem length_prerequisites_le (index : Nat) :
    (graph.prerequisiteSlots index).length ≤ graph.slots.size := by
  have hsub : graph.prerequisiteSlots index ⊆ List.range graph.slots.size := fun other hother =>
    List.mem_range.mpr (links_lt hsound .prerequisites index other hother)
  simpa using (List.subperm_of_subset (hsound.prerequisites_nodup index) hsub).length_le

theorem counts_eq (hfits : graph.Addressable) {members : Array Bool} {met : List Nat}
    (hsize : members.size = graph.slots.size)
    (hmet : ∀ index ∈ met, ∃ node, graph.Holds index node) :
    counts graph members met = .ok (met.foldl (fun pending index =>
      pending.setIfInBounds index
        ((graph.prerequisiteSlots index).countP fun source => members.getD source false))
      (Array.replicate graph.slots.size 0)) := by
  refine foldlM_eq (fun pending => pending.size = graph.slots.size)
    (fun pending hpending index hindex => ⟨?_, ?_⟩) Array.size_replicate
  · obtain ⟨_, slot, hslot, _⟩ := hmet index hindex
    have hlist := prerequisiteSlots_of_slot? hslot
    have hlt := slot?_eq_some_lt hslot
    have hcount : (slot.prerequisites.filter fun source => members.getD source false).length <
        2 ^ 32 :=
      List.length_filter_le _ _ |>.trans_lt
        ((hlist ▸ length_prerequisites_le hsound index).trans_lt hfits)
    rw [fetch_slots hlt, ok_bind, hslot, hlist, List.countP_eq_length_filter]
    dsimp only
    rw [sift_eq false id (hsize ▸ lt_of_slot hsound hslot .prerequisites), ok_bind]
    dsimp only [id]
    rw [word_eq hcount, ok_bind, put_eq (hpending ▸ hlt)]
  · rw [Array.size_setIfInBounds, hpending]

omit hsound in
theorem getElem?_foldl_setIfInBounds (f : Nat → Nat) {items : List Nat} {counted : Array Nat}
    (index : Nat) :
    (items.foldl (fun counted item => counted.setIfInBounds item (f item)) counted)[index]? =
      if index ∈ items ∧ index < counted.size then some (f index) else counted[index]? := by
  induction items generalizing counted with
  | nil => simp
  | cons first rest ih =>
      rw [List.foldl_cons, ih, Array.size_setIfInBounds, Array.getElem?_setIfInBounds]
      by_cases heq : first = index
      · by_cases hlt : index < counted.size <;> simp [heq, hlt]
      · simp [heq, Ne.symm heq]

omit hsound in
/-- Counting for the members of a scope, in any order, counts what the scope does. -/
theorem foldl_counts_eq {seeds met : List Nat}
    (hmet : ∀ index, index ∈ met ↔ Marked (graph.scope seeds).members index) :
    met.foldl (fun pending index => pending.setIfInBounds index
        ((graph.prerequisiteSlots index).countP fun source =>
          (graph.scope seeds).members.getD source false)) (Array.replicate graph.slots.size 0) =
      (graph.scope seeds).pending := by
  refine Array.ext_getElem? fun index => ?_
  rw [getElem?_foldl_setIfInBounds (fun index => (graph.prerequisiteSlots index).countP
    fun source => (graph.scope seeds).members.getD source false)]
  have hmem : index ∈ met ↔ (graph.markReaders seeds)[index]?.getD false = true := by
    rw [hmet, Marked, Array.getD_eq_getD_getElem?]
    rfl
  by_cases hbound : index < graph.slots.size
  · by_cases hindex : index ∈ met
    · simp [Graph.scope, hbound, hindex, hmem.mp hindex]
    · simp [Graph.scope, hbound, hindex, mt hmem.mpr hindex]
  · simp [Graph.scope, hbound]

theorem scope_eq (hfits : graph.Addressable) {seeds : List Nat}
    (hseeds : ∀ seed ∈ seeds, ∃ node, graph.Holds seed node) :
    scope graph seeds = .ok (graph.scope seeds) := by
  have hlt : ∀ seed ∈ seeds, seed < graph.slots.size :=
    fun seed hseed => (hseeds seed hseed).choose_spec.lt
  have hreverse : ∀ index, index ∈ seeds.reverse ↔ index ∈ seeds := fun _ => List.mem_reverse
  obtain ⟨searched, heq, hends⟩ := exists_search_start hsound .dependents none hlt hreverse
  rw [scope, heq, ok_bind]
  cases hends with
  | found hgoal => contradiction
  | exhausted _ hsize hsearches _ =>
      have hlists : Lists (graph.links .dependents) = graph.Feeds := by
        funext source target
        exact propext hsound.feeds_iff.symm
      have hmarked : ∀ index, Marked searched.marks index ↔
          ∃ seed ∈ seeds, ReflTransGen graph.Feeds seed index := by
        intro index
        rw [hsearches.marked_iff, hlists]
      have hmembers : searched.marks = (graph.scope seeds).members := by
        refine ext_of_marked (hsize.trans (size_members graph seeds).symm) fun index => ?_
        rw [hmarked, Graph.scope, marked_markReaders_iff hsound hlt]
      have hmet : ∀ index ∈ searched.met, ∃ node, graph.Holds index node := by
        intro index hindex
        obtain ⟨seed, hseed, hpath⟩ := (hmarked index).mp ((hsearches.mem_met index).mp hindex)
        rcases hpath.cases_tail with rfl | ⟨_, _, hfeeds⟩
        · exact hseeds _ hseed
        · exact hfeeds.exists_target
      have hmem := hsearches.mem_met
      rw [counts_eq hsound hfits hsize hmet, ok_bind]
      rw [hmembers] at hmem ⊢
      rw [foldl_counts_eq hmem]
      rfl

end Scope

/-! Starts. -/

section Starts

variable [DecidableEq α]

/-- Adds the slot of a node to those that were found, unless it is seen already. -/
def mention (graph : Graph α) (found : Array Bool × List Nat) (node : α) :
    Except Fault (Array Bool × List Nat) := do
  match graph.indexOf? node with
  | none => return found
  | some index =>
    let seen ← fetch found.1 index
    if seen then return found
    else
      let seen ← put found.1 index true
      return (seen, found.2 ++ [index])

def present (graph : Graph α) (starts : List α) : Except Fault (List Nat) := do
  let found ← starts.foldlM (mention graph) (Array.replicate graph.slots.size false, [])
  return found.2

def independent (graph : Graph α) (starts : List α) : Except Fault (List α) := do
  let seeds ← present graph starts
  let scope ← scope graph seeds
  let kept ← sift scope.pending (· == 0) seeds
  kept.mapM (nodeAt graph)

variable {graph : Graph α}

/-- The slots that were found are those that are seen. -/
structure Seen (graph : Graph α) (found : Array Bool × List Nat) (seeds : List Nat) : Prop where
  listed : found.2 = seeds
  size : found.1.size = graph.slots.size
  marked_iff : ∀ index, Marked found.1 index ↔ index ∈ seeds

variable (hsound : graph.Sound)

include hsound

theorem Seen.exists_mention {found : Array Bool × List Nat} {seeds : List Nat}
    (hseen : Seen graph found seeds) (node : α) :
    ∃ next, mention graph found node = .ok next ∧
      Seen graph next (match graph.indexOf? node with
        | some index => if index ∈ seeds then seeds else seeds ++ [index]
        | none => seeds) := by
  unfold mention
  cases hindex : graph.indexOf? node with
  | none => exact ⟨found, rfl, hseen⟩
  | some index =>
      have hlt : index < found.1.size := hseen.size ▸ (indexOf?_sound hsound hindex).lt
      dsimp only
      rw [fetch_eq false hlt, ok_bind]
      have hmarked : found.1.getD index false = true ↔ index ∈ seeds := hseen.marked_iff index
      by_cases hmem : index ∈ seeds
      · rw [if_pos (hmarked.mpr hmem), if_pos hmem]
        exact ⟨found, rfl, hseen⟩
      · rw [if_neg (mt hmarked.mp hmem), if_neg hmem, put_eq hlt]
        refine ⟨_, rfl, by rw [hseen.listed], ?_, fun other => ?_⟩
        · exact Array.size_setIfInBounds.trans hseen.size
        · rw [marked_setIfInBounds, hseen.marked_iff, and_iff_left hlt, List.mem_append,
            List.mem_singleton]

theorem present_eq (starts : List α) : present graph starts = .ok (graph.present starts) := by
  have hbegins : Seen graph (Array.replicate graph.slots.size false, []) [] :=
    ⟨rfl, Array.size_replicate, fun _ => iff_of_false not_marked_replicate List.not_mem_nil⟩
  obtain ⟨found, heq, hseen⟩ := exists_foldlM _ _ (Seen graph) starts
    (fun found seeds hseen node _ => hseen.exists_mention hsound node) hbegins
  rw [present, heq, ok_bind, hseen.listed]
  rfl

theorem exists_holds_of_mem_present (starts : List α) :
    ∀ seed ∈ graph.present starts, ∃ node, graph.Holds seed node := by
  intro seed hseed
  obtain ⟨node, _, hholds⟩ := (mem_present_iff hsound).mp hseed
  exact ⟨node, hholds⟩

theorem scope_present_eq (hfits : graph.Addressable) (starts : List α) :
    scope graph (graph.present starts) = .ok (graph.scope (graph.present starts)) :=
  scope_eq hsound hfits (exists_holds_of_mem_present hsound starts)

theorem sift_pending_eq (starts : List α) :
    sift (graph.scope (graph.present starts)).pending (· == 0) (graph.present starts) =
      .ok ((graph.present starts).filter fun index =>
        (graph.scope (graph.present starts)).pending.getD index 0 == 0) := by
  refine sift_eq 0 _ ?_
  simpa [Graph.scope] using present_lt hsound

theorem independent_eq (hfits : graph.Addressable) (starts : List α) :
    independent graph starts = .ok (graph.independent starts) := by
  rw [independent, present_eq hsound, ok_bind, scope_present_eq hsound hfits, ok_bind,
    sift_pending_eq hsound, ok_bind]
  exact mapM_nodeAt_eq fun index hindex =>
    exists_holds_of_mem_present hsound starts index (List.mem_filter.mp hindex).1

end Starts

end Guarded

end RegionLayout.Graph
