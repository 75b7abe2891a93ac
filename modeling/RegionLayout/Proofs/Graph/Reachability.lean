import Mathlib.Data.List.TakeWhile
import RegionLayout.Graph.Reach
import RegionLayout.Proofs.Folds
import RegionLayout.Proofs.Graph.Changes

/-!
Reachability. With as much fuel as there are unmarked slots, a flood marks exactly what its seeds
lead to; so a declared edge is refused exactly when the prerequisite is the dependent or depends on
it.
-/

namespace RegionLayout.Graph

open Relation

variable {α : Type}

/-! Marks. -/

/-- A slot is marked. -/
def Marked (marks : Array Bool) (index : Nat) : Prop :=
  marks.getD index false = true

theorem Marked.lt {marks : Array Bool} {index : Nat} (hmarked : Marked marks index) :
    index < marks.size := by
  by_contra hge
  simp [Marked, Array.getElem?_eq_none (Nat.le_of_not_lt hge)] at hmarked

theorem marked_iff_of_lt {marks : Array Bool} {index : Nat} (hlt : index < marks.size) :
    Marked marks index ↔ marks.getD index true = true := by
  simp [Marked, hlt]

theorem marked_setIfInBounds {marks : Array Bool} {index other : Nat} :
    Marked (marks.setIfInBounds index true) other ↔
      Marked marks other ∨ other = index ∧ index < marks.size := by
  simp only [Marked, Array.getD_eq_getD_getElem?, Array.getElem?_setIfInBounds]
  by_cases heq : index = other
  · subst heq
    by_cases hlt : index < marks.size <;> simp [hlt]
  · simp [heq, Ne.symm heq]

theorem ext_of_marked {marks other : Array Bool} (hsize : marks.size = other.size)
    (hmarked : ∀ index, Marked marks index ↔ Marked other index) : marks = other := by
  refine Array.ext hsize fun index hlt hbound => ?_
  rw [Bool.eq_iff_iff]
  simpa [Marked, hlt, hbound] using hmarked index

theorem not_marked_replicate {count index : Nat} :
    ¬ Marked (Array.replicate count false) index := by
  simp only [Marked, Array.getD_eq_getD_getElem?, Array.getElem?_replicate]
  split <;> simp

section Marking

variable {β : Type} (slotOf : β → Nat)

theorem size_foldl_setIfInBounds (items : List β) (marks : Array Bool) :
    (items.foldl (fun marks item => marks.setIfInBounds (slotOf item) true) marks).size =
      marks.size := by
  induction items generalizing marks with
  | nil => rfl
  | cons first rest ih => rw [List.foldl_cons, ih, Array.size_setIfInBounds]

theorem marked_foldl_iff {items : List β} {marks : Array Bool} {index : Nat} :
    Marked (items.foldl (fun marks item => marks.setIfInBounds (slotOf item) true) marks) index ↔
      Marked marks index ∨ index < marks.size ∧ ∃ item ∈ items, slotOf item = index := by
  induction items generalizing marks with
  | nil => simp
  | cons first rest ih =>
      have hfirst : Marked (marks.setIfInBounds (slotOf first) true) index ↔
          Marked marks index ∨ index < marks.size ∧ slotOf first = index := by
        rw [marked_setIfInBounds, and_comm, eq_comm]
        exact or_congr_right (and_congr_left fun heq => heq ▸ Iff.rfl)
      rw [List.foldl_cons, ih, hfirst, Array.size_setIfInBounds, or_assoc, ← and_or_left,
        List.exists_mem_cons_iff]

end Marking

/-! Floods. What a frontier skips is marked; what it takes next is not. -/

section Flood

variable (next : Nat → List Nat)

/-- A flood as its loop runs: a slot off the frontier in every round, and no bound on their
number. -/
inductive Floods : List Nat → Array Bool → Array Bool → Prop where
  | done (marks : Array Bool) : Floods [] marks marks
  | skip {index : Nat} {rest : List Nat} {marks result : Array Bool}
      (hmarked : Marked marks index) (hrest : Floods rest marks result) :
      Floods (index :: rest) marks result
  | mark {index : Nat} {rest : List Nat} {marks result : Array Bool} (hlt : index < marks.size)
      (hunmarked : ¬ Marked marks index)
      (hrest : Floods (next index ++ rest) (marks.setIfInBounds index true) result) :
      Floods (index :: rest) marks result

namespace Floods

variable {next} {frontier : List Nat} {marks result : Array Bool}
  (hfloods : Floods next frontier marks result)

include hfloods

theorem marked {index : Nat} (hmarked : Marked marks index) : Marked result index := by
  induction hfloods with
  | done marks => exact hmarked
  | skip _ _ ih => exact ih hmarked
  | mark _ _ _ ih => exact ih (marked_setIfInBounds.mpr (.inl hmarked))

/-- A flood marks nothing but what its frontier leads to. -/
theorem exists_path {index : Nat} (hmarked : Marked result index) : Marked marks index ∨
    ∃ seed ∈ frontier, ReflTransGen (fun first second => second ∈ next first) seed index := by
  induction hfloods with
  | done marks => exact .inl hmarked
  | skip _ _ ih =>
      rcases ih hmarked with hbefore | ⟨seed, hseed, hpath⟩
      · exact .inl hbefore
      · exact .inr ⟨seed, List.mem_cons_of_mem _ hseed, hpath⟩
  | @mark taken rest marks result hlt _ _ ih =>
      rcases ih hmarked with hbefore | ⟨seed, hseed, hpath⟩
      · rcases marked_setIfInBounds.mp hbefore with hold | ⟨rfl, _⟩
        · exact .inl hold
        · exact .inr ⟨index, List.mem_cons_self, .refl⟩
      · rcases List.mem_append.mp hseed with hnext | hrest
        · exact .inr ⟨taken, List.mem_cons_self, .head hnext hpath⟩
        · exact .inr ⟨seed, List.mem_cons_of_mem _ hrest, hpath⟩

/-- A flood marks its frontier and whatever a marked slot leads to. -/
theorem closed (hwaits : ∀ index, Marked marks index → ∀ other ∈ next index,
      Marked marks other ∨ other ∈ frontier) :
    (∀ seed ∈ frontier, Marked result seed) ∧
      ∀ index, Marked result index → ∀ other ∈ next index, Marked result other := by
  -- In every round, what a marked slot leads to is marked or waits in the frontier.
  induction hfloods with
  | done marks =>
      refine ⟨fun seed hseed => absurd hseed List.not_mem_nil, fun index hindex other hother => ?_⟩
      exact (hwaits index hindex other hother).resolve_right List.not_mem_nil
  | skip hmarked hrest ih =>
      obtain ⟨hseeds, hclosed⟩ := ih fun index hindex other hother => by
        rcases hwaits index hindex other hother with hold | hwaiting
        · exact .inl hold
        · rcases List.mem_cons.mp hwaiting with rfl | hlater
          · exact .inl hmarked
          · exact .inr hlater
      exact ⟨List.forall_mem_cons.mpr ⟨hrest.marked hmarked, hseeds⟩, hclosed⟩
  | @mark taken rest marks result hlt _ hrest ih =>
      have hmarked : Marked (marks.setIfInBounds taken true) taken :=
        marked_setIfInBounds.mpr (.inr ⟨rfl, hlt⟩)
      obtain ⟨hseeds, hclosed⟩ := ih fun index hindex other hother => by
        rcases marked_setIfInBounds.mp hindex with hold | ⟨rfl, _⟩
        · rcases hwaits index hold other hother with hbefore | hwaiting
          · exact .inl (marked_setIfInBounds.mpr (.inl hbefore))
          · rcases List.mem_cons.mp hwaiting with rfl | hlater
            · exact .inl hmarked
            · exact .inr (List.mem_append_right _ hlater)
        · exact .inr (List.mem_append_left _ hother)
      refine ⟨List.forall_mem_cons.mpr ⟨hrest.marked hmarked, fun seed hseed => ?_⟩, hclosed⟩
      exact hseeds seed (List.mem_append_right _ hseed)

end Floods

/-! The bound of a flood is never what ends it. -/

theorem size_flood (fuel : Nat) (frontier : List Nat) (marks : Array Bool) :
    (flood next fuel frontier marks).size = marks.size := by
  induction fuel generalizing frontier marks with
  | zero => rfl
  | succ fuel ih =>
      unfold flood
      split
      · rfl
      · rw [ih, Array.size_setIfInBounds]

theorem exists_taken {frontier rest : List Nat} {index : Nat} {marks : Array Bool}
    (htaken : frontier.dropWhile (fun index => marks.getD index true) = index :: rest) :
    index < marks.size ∧ ¬ Marked marks index ∧ ∃ skipped, frontier = skipped ++ index :: rest ∧
      ∀ other ∈ skipped, other < marks.size → Marked marks other := by
  have hunmarked : ¬ marks.getD index true = true := by
    have hhead := List.head?_dropWhile_not (fun index => marks.getD index true) frontier
    rw [htaken] at hhead
    simpa using hhead
  have hlt : index < marks.size := by
    by_contra hge
    simp [Array.getElem?_eq_none (Nat.le_of_not_lt hge)] at hunmarked
  refine ⟨hlt, (marked_iff_of_lt hlt).not.mpr hunmarked,
    frontier.takeWhile fun index => marks.getD index true, ?_, ?_⟩
  · rw [← htaken, List.takeWhile_append_dropWhile]
  · intro other hother hbound
    have htrue := List.mem_takeWhile_imp hother
    exact (marked_iff_of_lt hbound).mpr htrue

theorem marked_of_count_eq_zero {marks : Array Bool} (hnone : marks.count false = 0) {index : Nat}
    (hlt : index < marks.size) : Marked marks index := by
  have hmissing := Array.count_eq_zero.mp hnone
  rw [Marked, Array.getD_eq_getD_getElem?, Array.getElem?_eq_getElem hlt, Option.getD_some]
  by_contra hfalse
  exact hmissing (Bool.eq_false_iff.mpr hfalse ▸ Array.getElem_mem hlt)

theorem count_mark {marks : Array Bool} {index : Nat} (hlt : index < marks.size)
    (hunmarked : ¬ Marked marks index) :
    (marks.setIfInBounds index true).count false + 1 = marks.count false := by
  have hfalse : marks[index] = false := by
    rw [marked_iff_of_lt hlt] at hunmarked
    simpa [hlt] using hunmarked
  have hpos : 0 < marks.count false :=
    Array.count_pos_iff.mpr (hfalse ▸ Array.getElem_mem hlt)
  simp only [Array.setIfInBounds, hlt, ↓reduceDIte]
  rw [Array.count_set hlt, hfalse]
  simp only [BEq.rfl, ↓reduceIte, beq_iff_eq, Bool.true_eq_false]
  omega

theorem Floods.skip_all {skipped rest : List Nat} {marks result : Array Bool}
    (hmarked : ∀ index ∈ skipped, Marked marks index) (hrest : Floods next rest marks result) :
    Floods next (skipped ++ rest) marks result := by
  induction skipped with
  | nil => exact hrest
  | cons index skipped ih =>
      exact .skip (hmarked index List.mem_cons_self)
        (ih fun other hother => hmarked other (List.mem_cons_of_mem _ hother))

theorem floods_of_marked {frontier : List Nat} {marks : Array Bool}
    (hmarked : ∀ index ∈ frontier, Marked marks index) : Floods next frontier marks marks := by
  have hskips := Floods.skip_all next hmarked (.done marks)
  rwa [List.append_nil] at hskips

theorem floods_flood {fuel : Nat} {frontier : List Nat} {marks : Array Bool}
    (hnext : ∀ first, ∀ second ∈ next first, second < marks.size)
    (hfrontier : ∀ index ∈ frontier, index < marks.size) (hfuel : marks.count false ≤ fuel) :
    Floods next frontier marks (flood next fuel frontier marks) := by
  -- Every unit of fuel marks a slot, so that none is left over once there is no fuel.
  induction fuel generalizing frontier marks with
  | zero =>
      exact floods_of_marked next fun index hindex =>
        marked_of_count_eq_zero (Nat.le_zero.mp hfuel) (hfrontier index hindex)
  | succ fuel ih =>
      unfold flood
      split
      next hnone =>
        refine floods_of_marked next fun index hindex => ?_
        exact (marked_iff_of_lt (hfrontier index hindex)).mpr
          (List.dropWhile_eq_nil_iff.mp hnone index hindex)
      next taken rest htaken =>
        obtain ⟨hlt, hunmarked, skipped, rfl, hskipped⟩ := exists_taken htaken
        have hcount := count_mark hlt hunmarked
        refine .skip_all next (fun index hindex =>
          hskipped index hindex (hfrontier index (List.mem_append_left _ hindex))) ?_
        refine .mark hlt hunmarked (ih ?_ ?_ (by omega))
        · rwa [Array.size_setIfInBounds]
        · intro index hindex
          rw [Array.size_setIfInBounds]
          rcases List.mem_append.mp hindex with hdirect | hrest
          · exact hnext taken index hdirect
          · exact hfrontier index (List.mem_append_right _ (List.mem_cons_of_mem _ hrest))

end Flood

theorem floods_reached {graph : Graph α} {next : Nat → List Nat} {seeds : List Nat}
    (hnext : ∀ first, ∀ second ∈ next first, second < graph.slots.size)
    (hseeds : ∀ seed ∈ seeds, seed < graph.slots.size) :
    Floods next seeds (Array.replicate graph.slots.size false) (graph.reached next seeds) := by
  refine floods_flood next ?_ ?_ (Array.count_le_size.trans_eq Array.size_replicate)
  · simpa using hnext
  · simpa using hseeds

theorem marked_reached_iff {graph : Graph α} {next : Nat → List Nat} {seeds : List Nat}
    {index : Nat} (hnext : ∀ first, ∀ second ∈ next first, second < graph.slots.size)
    (hseeds : ∀ seed ∈ seeds, seed < graph.slots.size) :
    Marked (graph.reached next seeds) index ↔
      ∃ seed ∈ seeds, ReflTransGen (fun first second => second ∈ next first) seed index := by
  have hfloods := floods_reached hnext hseeds
  obtain ⟨hstart, hclosed⟩ := hfloods.closed fun index hindex => absurd hindex not_marked_replicate
  constructor
  · intro hmarked
    exact (hfloods.exists_path hmarked).resolve_left not_marked_replicate
  · rintro ⟨seed, hseed, hpath⟩
    induction hpath with
    | refl => exact hstart seed hseed
    | tail _ hstep ih => exact hclosed _ ih _ hstep

section Sound

variable {graph : Graph α} (hsound : graph.Sound) {seeds : List Nat}
  (hseeds : ∀ seed ∈ seeds, seed < graph.slots.size)

include hsound hseeds

theorem marked_markRead_iff {index : Nat} :
    Marked (graph.markRead seeds) index ↔ ∃ seed ∈ seeds, ReflTransGen graph.Feeds index seed := by
  rw [markRead, marked_reached_iff (fun first second hmem => ?_) hseeds]
  · exact exists_congr fun seed => and_congr_right fun _ => reflTransGen_swap
  · exact (Feeds.exists_source hsound hmem).choose_spec.lt

theorem marked_markReaders_iff {index : Nat} :
    Marked (graph.markReaders seeds) index ↔
      ∃ seed ∈ seeds, ReflTransGen graph.Feeds seed index := by
  have hnext : (fun first second => second ∈ graph.dependentSlots first) = graph.Feeds := by
    funext first second
    exact propext hsound.feeds_iff.symm
  rw [markReaders, marked_reached_iff (fun first second hmem => ?_) hseeds, hnext]
  exact (hsound.feeds_iff.mpr hmem).target_lt

end Sound

/-! Declaring an edge. -/

/-- `other` is `graph` with an edge, and with the nodes at its ends. -/
structure AddsEdge (graph other : Graph α) (prerequisite dependent : α) : Prop where
  sound : other.Sound
  has_iff : ∀ node, other.Has node ↔ graph.Has node ∨ node = prerequisite ∨ node = dependent
  edge_iff : ∀ first second, other.Edge first second ↔
    graph.Edge first second ∨ first = prerequisite ∧ second = dependent

theorem addsEdge_link {graph middle final : Graph α} {source target : Nat}
    {prerequisite dependent : α}
    (hsound : graph.Sound) (hfirst : AddsNode graph middle source prerequisite)
    (hsecond : AddsNode middle final target dependent)
    (hopen : ¬ ReflTransGen graph.Edge dependent prerequisite) :
    AddsEdge graph (final.link source target) prerequisite dependent := by
  have hsource := hsecond.holds_mono hfirst.holds
  have htarget := hsecond.holds
  have hedges : ∀ first second, final.Edge first second ↔ graph.Edge first second :=
    fun first second => (hsecond.edge_iff hfirst.sound).trans (hfirst.edge_iff hsound)
  have hclear : ¬ ReflTransGen final.Feeds target source := by
    rw [← hsecond.sound.reflTransGen_edge_iff htarget hsource]
    intro hpath
    exact hopen (ReflTransGen.mono (fun first second => (hedges first second).mp) _ _ hpath)
  refine ⟨hsecond.sound.link hsource htarget hclear, fun node => ?_, fun first second => ?_⟩
  · rw [keepsNodes_link.has_iff, hsecond.has_iff, hfirst.has_iff, or_assoc]
  · rw [← hedges]
    constructor
    · rintro ⟨place, position, hplace, hposition, hfeeds⟩
      rw [keepsNodes_link.holds_iff] at hplace hposition
      rcases (feeds_link htarget place position).mp hfeeds with hold | ⟨hfrom, hto⟩
      · exact .inl ⟨place, position, hplace, hposition, hold⟩
      · exact .inr ⟨(hfrom ▸ hplace).node_unique hsource, (hto ▸ hposition).node_unique htarget⟩
    · rintro (⟨place, position, hplace, hposition, hold⟩ | ⟨rfl, rfl⟩)
      · exact ⟨place, position, keepsNodes_link.holds_iff.mpr hplace,
          keepsNodes_link.holds_iff.mpr hposition,
          (feeds_link htarget place position).mpr (.inl hold)⟩
      · exact ⟨source, target, keepsNodes_link.holds_iff.mpr hsource,
          keepsNodes_link.holds_iff.mpr htarget,
          (feeds_link htarget source target).mpr (.inr ⟨rfl, rfl⟩)⟩

section Declare

variable [DecidableEq α] {graph : Graph α}

theorem dependsOn_iff (hsound : graph.Sound) {reader target : α} (hreader : graph.Has reader)
    (htarget : graph.Has target) :
    graph.dependsOn reader target = true ↔ ReflTransGen graph.Edge target reader := by
  obtain ⟨start, hstart⟩ := hreader
  obtain ⟨goal, hgoal⟩ := htarget
  rw [hsound.reflTransGen_edge_iff hgoal hstart]
  simp only [dependsOn, (indexOf?_eq_some_iff hsound).mpr hstart,
    (indexOf?_eq_some_iff hsound).mpr hgoal]
  have hmarked : Marked (graph.markRead [start]) goal ↔
      ∃ seed ∈ [start], ReflTransGen graph.Feeds goal seed :=
    marked_markRead_iff hsound (by simpa using hstart.lt)
  simpa [Marked] using hmarked

theorem has_of_dependsOn (hsound : graph.Sound) {reader target : α}
    (hdepends : graph.dependsOn reader target = true) : graph.Has reader ∧ graph.Has target := by
  unfold dependsOn at hdepends
  split at hdepends
  next hstart hgoal =>
    exact ⟨⟨_, indexOf?_sound hsound hstart⟩, ⟨_, indexOf?_sound hsound hgoal⟩⟩
  next => contradiction

theorem refused_iff (hsound : graph.Sound) {prerequisite dependent : α} :
    (prerequisite = dependent ∨ graph.dependsOn prerequisite dependent = true) ↔
      ReflTransGen graph.Edge dependent prerequisite := by
  by_cases hne : dependent = prerequisite
  · exact iff_of_true (.inl hne.symm) (hne ▸ .refl)
  · rw [or_iff_right (Ne.symm hne)]
    constructor
    · intro hdepends
      obtain ⟨hfirst, hsecond⟩ := has_of_dependsOn hsound hdepends
      exact (dependsOn_iff hsound hfirst hsecond).mp hdepends
    · intro hpath
      have hbetween := (reflTransGen_iff_eq_or_transGen.mp hpath).resolve_left (Ne.symm hne)
      obtain ⟨hfirst, hsecond⟩ := has_of_transGen hbetween
      exact (dependsOn_iff hsound hsecond hfirst).mpr hpath

theorem declare_eq_error_iff (hsound : graph.Sound) {prerequisite dependent : α}
    {cause : CycleError α} :
    graph.declare prerequisite dependent = .error cause ↔
      cause = ⟨prerequisite, dependent⟩ ∧ ReflTransGen graph.Edge dependent prerequisite := by
  rw [← refused_iff hsound, declare]
  split
  next hrefused =>
    simp only [Except.error.injEq, hrefused, and_true]
    exact eq_comm
  next hopen => simp only [reduceCtorEq, hopen, and_false]

theorem addsEdge_declare (hsound : graph.Sound) {prerequisite dependent : α} {other : Graph α}
    (hdeclared : graph.declare prerequisite dependent = .ok other) :
    AddsEdge graph other prerequisite dependent := by
  by_cases hrefused : prerequisite = dependent ∨ graph.dependsOn prerequisite dependent = true
  · rw [declare, if_pos hrefused] at hdeclared
    contradiction
  · rw [declare, if_neg hrefused] at hdeclared
    injection hdeclared with hother
    subst hother
    have hfirst := addsNode_intern hsound prerequisite
    exact addsEdge_link hsound hfirst (addsNode_intern hfirst.sound dependent)
      ((refused_iff hsound).not.mp hrefused)

end Declare

end RegionLayout.Graph
