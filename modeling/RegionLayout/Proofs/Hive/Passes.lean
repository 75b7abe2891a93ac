import RegionLayout.Proofs.CoordinateSet
import RegionLayout.Proofs.Graph.Traversal
import RegionLayout.Proofs.Hive.Rewiring
import RegionLayout.Proofs.Length.Greater

/-!
Passes. A pass is refused while it rewires, fails at a coordinate that cannot be calculated, or ends
with all that is wanted calculated. However it ends, the hive stays sound: edges that were replaced
agree with the recipes, and the others belong to coordinates that still wait.
-/

namespace RegionLayout

open Relation

namespace RegionTree

variable {before after : RegionTree}

theorem Steady.prerequisites (hsteady : Steady before after) (hbuilt : before.network.BuiltIn)
    (id : CoordinateId) : after.prerequisites id = before.prerequisites id := by
  have hbuilt' : after.network.BuiltIn := fun length formula hformula =>
    hbuilt length formula (hsteady.formula? length ▸ hformula)
  rw [RegionTree.prerequisites, RegionTree.prerequisites]
  cases hold : before.coordinate? id with
  | none =>
      have hwired := hsteady.wired id
      rw [hold, Option.map_none, Option.map_eq_none_iff] at hwired
      rw [hwired]
      rfl
  | some old =>
      obtain ⟨new, hnew, hrecipe, _⟩ := hsteady.exists_coordinate hold
      rw [hnew, Option.map_some, Option.map_some, Option.getD_some, Option.getD_some, hrecipe,
        hbuilt.prerequisites, hbuilt'.prerequisites, Network.reads, hsteady.formula?, Network.reads]

theorem beq_settled (old value : Option Float) :
    (old == settled old (.ok value)) = (old == value) := by
  rw [settled]
  split
  next hequal =>
    rw [hequal]
    cases old with
    | none => rfl
    | some number =>
        cases value with
        | none => contradiction
        | some other =>
            have hbeq : (number == other) = true := hequal
            exact Float.beq_self_iff.mpr (Float.beq_iff_ne_nan_and_eq.mp hbeq).1
  next => rfl

end RegionTree

namespace Pass

open RegionTree (settled)

/-! Calculations. -/

variable {before middle after : Pass}

/-- A pass after it calculated a coordinate. -/
structure Calculates (before after : Pass) (id : CoordinateId) (flow : Flow) : Prop where
  revalues : RegionTree.Revalues before.tree after.tree
  relative : ∀ other, after.tree.relative other =
    if other = id then settled (before.tree.relative id) (before.tree.evaluate id)
    else before.tree.relative other
  value : ∃ value, before.tree.evaluate id = .ok value
  stops : flow = Flow.stop ↔ (before.tree.relative id == after.tree.relative id) = true
  graph : after.graph = before.graph
  calculations : calculations after.trace = calculations before.trace ++ [id]
  stats : after.stats = { before.stats with
    calculated := before.stats.calculated + 1
    stopped := before.stats.stopped + if flow = .stop then 1 else 0 }

theorem Calculates.relative_of_stop {id : CoordinateId} {flow : Flow}
    (hcalculates : Calculates before after id flow) (hstop : flow = Flow.stop) :
    after.tree.relative id = before.tree.relative id := by
  obtain ⟨value, hvalue⟩ := hcalculates.value
  have hequal := hcalculates.stops.mp hstop
  have hstored := hcalculates.relative id
  rw [if_pos rfl, hvalue] at hstored
  rw [hstored, RegionTree.beq_settled] at hequal
  rw [hstored, settled, if_pos hequal]

theorem calculates {id : CoordinateId} {flow : Flow}
    (hvisit : Pass.calculate id before = (.ok flow, after)) : Calculates before after id flow := by
  obtain ⟨hresult, hrevalues, hrelative⟩ := RegionTree.calculate_spec before.tree id
  unfold Pass.calculate at hvisit
  dsimp only at hvisit
  split at hvisit
  next => simp at hvisit
  next value tree hcalculate =>
    rw [hcalculate] at hresult hrevalues hrelative
    have hstored := hrelative id
    rw [if_pos rfl, ← hresult] at hstored
    have hmoved : (before.tree.relative id == tree.relative id) =
        (before.tree.relative id == value) := by
      rw [hstored, RegionTree.beq_settled]
    have hpushed := calculations_push before.trace (.calculated id)
    split at hvisit
    next hequal =>
      obtain ⟨hflow, rfl⟩ := Prod.mk.inj hvisit
      cases hflow
      exact ⟨hrevalues, hrelative, ⟨value, hresult.symm⟩, iff_of_true rfl (hmoved.trans hequal),
        rfl, hpushed, rfl⟩
    next hdiffers =>
      obtain ⟨hflow, rfl⟩ := Prod.mk.inj hvisit
      cases hflow
      exact ⟨hrevalues, hrelative, ⟨value, hresult.symm⟩,
        iff_of_false nofun fun hequal => hdiffers (hmoved.symm.trans hequal), rfl, hpushed, rfl⟩

theorem calculate_error {id : CoordinateId} {failure : LayoutError}
    (hvisit : Pass.calculate id before = (.error failure, after)) :
    before.tree.evaluate id = .error failure ∧ RegionTree.Revalues before.tree after.tree ∧
      (∀ other, after.tree.relative other = before.tree.relative other) ∧
      after.graph = before.graph ∧ calculations after.trace = calculations before.trace := by
  obtain ⟨hresult, hrevalues, hrelative⟩ := RegionTree.calculate_spec before.tree id
  unfold Pass.calculate at hvisit
  dsimp only at hvisit
  split at hvisit
  next cause tree hcalculate =>
    rw [hcalculate] at hresult hrevalues hrelative
    obtain ⟨hfailure, rfl⟩ := Prod.mk.inj hvisit
    cases hfailure
    refine ⟨hresult.symm, hrevalues, fun other => ?_, rfl, rfl⟩
    rw [hrelative, ← hresult]
    split
    next heq => rw [heq, settled]
    next => rfl
  next => split at hvisit <;> simp at hvisit

theorem isCycle_of_calculate (hsound : before.tree.Sound) {id : CoordinateId}
    {failure : LayoutError} (hfails : Pass.calculate id before = (.error failure, after)) :
    failure.isCycle = false := by
  obtain ⟨hvalue, _⟩ := calculate_error hfails
  unfold RegionTree.evaluate at hvalue
  split at hvalue
  next =>
    rw [← Except.error.inj hvalue]
    rfl
  next => exact Network.isCycle_of_value hsound.network.laid.builtIn hvalue

/-- A pass after it calculated what a log says. -/
structure Sweeps (before after : Pass) (log : List (CoordinateId × Flow)) : Prop where
  revalues : RegionTree.Revalues before.tree after.tree
  relative : ∀ id ∉ log.map Prod.fst, after.tree.relative id = before.tree.relative id
  graph : after.graph = before.graph
  calculations : calculations after.trace = calculations before.trace ++ log.map Prod.fst
  stats : after.stats = { before.stats with
    calculated := before.stats.calculated + log.length
    stopped := before.stats.stopped + log.countP fun entry => entry.2 = .stop }

theorem Sweeps.refl (pass : Pass) : Sweeps pass pass [] :=
  ⟨.refl pass.tree, fun _ _ => rfl, rfl, (List.append_nil _).symm, rfl⟩

theorem Sweeps.cons {id : CoordinateId} {flow : Flow} {log : List (CoordinateId × Flow)}
    (hfirst : Calculates before middle id flow) (hrest : Sweeps middle after log) :
    Sweeps before after ((id, flow) :: log) where
  revalues := hfirst.revalues.trans hrest.revalues
  relative other hother := by
    rw [List.map_cons, List.mem_cons, not_or] at hother
    rw [hrest.relative other hother.2, hfirst.relative, if_neg hother.1]
  graph := hrest.graph.trans hfirst.graph
  calculations := by
    rw [hrest.calculations, hfirst.calculations, List.append_assoc, List.map_cons,
      List.singleton_append]
  stats := by
    rw [hrest.stats, hfirst.stats, List.countP_cons, List.length_cons]
    simp only [decide_eq_true_eq, LayoutStats.mk.injEq, true_and, and_true]
    constructor <;> omega

theorem sweeps {log : List (CoordinateId × Flow)}
    (hvisits : Graph.Visits Pass.calculate log before after) : Sweeps before after log := by
  induction hvisits with
  | nil state => exact .refl state
  | cons hvisit _ ih => exact .cons (calculates hvisit) ih

theorem exists_calculates {log : List (CoordinateId × Flow)} {id : CoordinateId} {flow : Flow}
    (hvisits : Graph.Visits Pass.calculate log before after) (hmem : (id, flow) ∈ log) :
    ∃ earlier later first second, log = earlier ++ (id, flow) :: later ∧
      Sweeps before first earlier ∧ Calculates first second id flow ∧
        Sweeps second after later := by
  induction hvisits with
  | nil state => exact absurd hmem List.not_mem_nil
  | @cons node other log start next last hvisit hrest ih =>
      rcases List.mem_cons.mp hmem with heq | hmem
      · obtain ⟨rfl, rfl⟩ := Prod.mk.inj heq
        exact ⟨[], log, start, next, rfl, .refl start, calculates hvisit, sweeps hrest⟩
      · obtain ⟨earlier, later, first, second, rfl, hearlier, hcalculates, hlater⟩ := ih hmem
        exact ⟨(node, other) :: earlier, later, first, second, rfl,
          hearlier.cons (calculates hvisit), hcalculates, hlater⟩

section Nodup

variable {log : List (CoordinateId × Flow)} {id : CoordinateId} {flow : Flow}
  (hvisits : Graph.Visits Pass.calculate log before after) (hnodup : (log.map Prod.fst).Nodup)
  (hmem : (id, flow) ∈ log)

include hvisits hnodup hmem

/-- The one calculation of a coordinate, before and after which its value stays. -/
theorem exists_calculates_once : ∃ earlier later first second,
    log = earlier ++ (id, flow) :: later ∧ Sweeps before first earlier ∧
      Calculates first second id flow ∧ Sweeps second after later ∧
      first.tree.relative id = before.tree.relative id ∧
      after.tree.relative id = second.tree.relative id := by
  obtain ⟨earlier, later, first, second, rfl, hearlier, hcalculates, hlater⟩ :=
    exists_calculates hvisits hmem
  rw [List.map_append, List.map_cons, List.nodup_append, List.nodup_cons] at hnodup
  obtain ⟨-, ⟨hlate, -⟩, hdisjoint⟩ := hnodup
  have hearly : id ∉ earlier.map Prod.fst :=
    fun hmem => hdisjoint id hmem id List.mem_cons_self rfl
  exact ⟨earlier, later, first, second, rfl, hearlier, hcalculates, hlater,
    hearlier.relative id hearly, hlater.relative id hlate⟩

theorem flow_iff : flow = Flow.stop ↔
    (before.tree.relative id == after.tree.relative id) = true := by
  obtain ⟨_, _, first, second, _, _, hcalculates, _, hbefore, hafter⟩ :=
    exists_calculates_once hvisits hnodup hmem
  rw [hcalculates.stops, ← hbefore, ← hafter]

theorem relative_of_stop (hstop : flow = Flow.stop) :
    after.tree.relative id = before.tree.relative id := by
  obtain ⟨_, _, first, second, _, _, hcalculates, _, hbefore, hafter⟩ :=
    exists_calculates_once hvisits hnodup hmem
  rw [hafter, hcalculates.relative_of_stop hstop, hbefore]

end Nodup

end Pass

theorem Backlog.empty_merge (pending : Backlog) : Backlog.empty.merge pending = pending := by
  rw [merge, empty, CoordinateSet.empty_union, CoordinateSet.empty_union, CoordinateSet.empty_union]

namespace Hive

/-! How a pass ends. -/

variable {hive : Hive}

/-- What a pass rewires, in its order. -/
def worklist (hive : Hive) : List CoordinateId :=
  (hive.pending.fresh.union hive.pending.rewired).toList

theorem mem_worklist {id : CoordinateId} :
    id ∈ hive.worklist ↔ id ∈ hive.pending.fresh ∨ id ∈ hive.pending.rewired :=
  CoordinateSet.mem_union

/-- A pass over a hive, with nodes for what is new. -/
def opening (hive : Hive) : Pass :=
  hive.beginPass.addNodes hive.pending.fresh.toList

/-- A hive whose work was taken up. -/
def idle (hive : Hive) : Hive :=
  { hive with pending := .empty }

theorem abort_eq (hive : Hive) (pass : Pass) (failure : LayoutError) :
    (hive.idle.endPass pass).abort hive.pending failure =
      { hive with
        tree := pass.tree
        graph := pass.graph
        trace := pass.trace.push (.aborted failure) } := by
  show ({ hive with
    tree := pass.tree
    graph := pass.graph
    trace := pass.trace.push (.aborted failure)
    pending := Backlog.empty.merge hive.pending } : Hive) = _
  rw [Backlog.empty_merge]

/-- The pass that calculates once everything is rewired. -/
def seeding (hive : Hive) (wired : Pass) : Pass :=
  { wired with stats := { wired.stats with seeded := (hive.starts hive.pending).length } }

/-- The three ways in which a pass ends. -/
inductive Ends (hive : Hive) : Except LayoutError LayoutStats × Hive → Prop where
  | refused {done rest : List CoordinateId} {id : CoordinateId} {pass : Pass}
      (cause : CycleError CoordinateId) (hworklist : hive.worklist = done ++ id :: rest)
      (hrefused : Pass.Refused hive.opening pass done id) :
      Ends hive (.error (.cycle cause),
        (hive.idle.endPass pass).abort hive.pending (.cycle cause))
  | failed {wired last final : Pass} {log : List (CoordinateId × Flow)} {id : CoordinateId}
      {failure : LayoutError} (hrewires : Pass.Rewires hive.opening wired hive.worklist)
      (hvisits : Graph.Visits Pass.calculate log (hive.seeding wired) last)
      (horderly : Graph.Orderly wired.graph (hive.starts hive.pending) log)
      (hdue : Graph.Due wired.graph (hive.starts hive.pending) log id)
      (hfails : Pass.calculate id last = (.error failure, final)) :
      Ends hive (.error failure, (hive.idle.endPass final).abort hive.pending failure)
  | finished {wired last : Pass} {log : List (CoordinateId × Flow)}
      (hrewires : Pass.Rewires hive.opening wired hive.worklist)
      (hvisits : Graph.Visits Pass.calculate log (hive.seeding wired) last)
      (horderly : Graph.Orderly wired.graph (hive.starts hive.pending) log)
      (hcomplete : ∀ id, wired.graph.Wanted (hive.starts hive.pending) log id →
        id ∈ log.map Prod.fst) :
      Ends hive (.ok last.stats, (hive.idle.endPass last).succeed last.stats)

theorem opening_spec (hsound : hive.graph.Sound) : hive.opening.graph.Sound ∧
    (∀ id, hive.opening.graph.Has id ↔ hive.graph.Has id ∨ id ∈ hive.pending.fresh) ∧
    ∀ first second, hive.opening.graph.Edge first second ↔ hive.graph.Edge first second :=
  Pass.addNodes_spec hive.beginPass hsound hive.pending.fresh.toList

theorem Sound.worklist (hsound : hive.Sound) : ∀ id ∈ hive.worklist, id ∈ hive.registry := by
  intro id hid
  rcases mem_worklist.mp hid with hfresh | hrewired
  · exact hsound.fresh id hfresh
  · exact hsound.rewired id hrewired

/-- The run of the pass in a layout. -/
def run (hive : Hive) : Except LayoutError Unit × Pass :=
  hive.idle.beginPass.run hive.pending.fresh.toList hive.worklist
    (hive.idle.starts hive.pending)

theorem layout_of_ok {pass : Pass} (hrun : hive.run = (.ok (), pass)) :
    hive.layout = (.ok pass.stats, (hive.idle.endPass pass).succeed pass.stats) := by
  unfold run worklist idle at hrun
  unfold layout
  dsimp only
  rw [hrun]
  rfl

theorem layout_of_error {failure : LayoutError} {pass : Pass}
    (hrun : hive.run = (.error failure, pass)) :
    hive.layout = (.error failure, (hive.idle.endPass pass).abort hive.pending failure) := by
  unfold run worklist idle at hrun
  unfold layout
  dsimp only
  rw [hrun]
  rfl

theorem Sound.starts (hsound : hive.Sound) :
    ∀ id ∈ hive.starts hive.pending, id ∈ hive.registry := by
  unfold Hive.starts
  split
  · exact fun _ hid => hid
  · intro id hid
    rcases CoordinateSet.mem_union.mp hid with hfresh | hinvalidated
    · exact hsound.fresh id hfresh
    · exact hsound.invalidated id hinvalidated

theorem ends_layout (hsound : hive.Sound) : hive.Ends hive.layout := by
  have hopening := (opening_spec hsound.graph).1
  have hknown : ∀ id ∈ hive.worklist, ∃ coordinate,
      hive.opening.tree.coordinate? id = some coordinate :=
    fun id hid => hsound.known id (hsound.worklist id hid)
  rcases Pass.exists_rewireAll hopening hknown with ⟨wired, hwired, hrewires⟩ |
    ⟨done, id, rest, cause, pass, hworklist, hpass, hrefused⟩
  · obtain ⟨log, last, hvisits, horderly, hends⟩ := Graph.exists_traverseFrom hrewires.sound
      (hive.starts hive.pending) Pass.calculate (hive.seeding wired)
    have hrun : hive.run = wired.sweep (hive.starts hive.pending) := by
      have hopened : Pass.rewireAll hive.worklist
          (hive.idle.beginPass.addNodes hive.pending.fresh.toList) = (.ok (), wired) := hwired
      rw [run, Pass.run, hopened]
      rfl
    generalize hresult : wired.graph.traverseFrom (hive.starts hive.pending) Pass.calculate
      (hive.seeding wired) = result at hends
    cases hends with
    | finished hcomplete =>
        rw [layout_of_ok (hrun.trans hresult)]
        exact .finished hrewires hvisits horderly hcomplete
    | failed hdue hfails =>
        rw [layout_of_error (hrun.trans hresult)]
        exact .failed hrewires hvisits horderly hdue hfails
  · have hrun : hive.run = (.error (.cycle cause), pass) := by
      have hopened : Pass.rewireAll hive.worklist
          (hive.idle.beginPass.addNodes hive.pending.fresh.toList) =
            (.error (.cycle cause), pass) := hpass
      rw [run, Pass.run, hopened]
    rw [layout_of_error hrun]
    exact .refused cause hworklist hrefused

/-! Soundness across passes. -/

/-- What the recipes of registered coordinates read. -/
def Reads (hive : Hive) (prerequisite dependent : CoordinateId) : Prop :=
  dependent ∈ hive.registry ∧ prerequisite ∈ hive.tree.prerequisites dependent

theorem Sound.rewired_worklist_iff (hsound : hive.Sound) {prerequisite dependent : CoordinateId} :
    Rewired hive.graph.Edge hive.tree.prerequisites hive.worklist prerequisite dependent ↔
      hive.Reads prerequisite dependent := by
  by_cases hwaits : dependent ∈ hive.worklist
  · rw [Rewired.of_mem hwaits]
    exact (and_iff_right (hsound.worklist dependent hwaits)).symm
  · rw [Rewired.of_not_mem hwaits]
    rw [mem_worklist, not_or] at hwaits
    constructor
    · intro hedge
      have hregistered := hsound.dependents prerequisite dependent hedge
      exact ⟨hregistered,
        (hsound.wired dependent hregistered hwaits.1 hwaits.2 prerequisite).mp hedge⟩
    · rintro ⟨hregistered, hreads⟩
      exact (hsound.wired dependent hregistered hwaits.1 hwaits.2 prerequisite).mpr hreads

theorem Sound.wires (hsound : hive.Sound) {wired : Pass}
    (hrewires : Pass.Rewires hive.opening wired hive.worklist) :
    (∀ id ∈ hive.registry, wired.graph.Has id) ∧
      ∀ prerequisite dependent, wired.graph.Edge prerequisite dependent ↔
        hive.Reads prerequisite dependent := by
  obtain ⟨_, hhas, hedges⟩ := opening_spec hsound.graph
  refine ⟨fun id hid => hrewires.has id ((hhas id).mpr ?_), fun prerequisite dependent => ?_⟩
  · by_cases hfresh : id ∈ hive.pending.fresh
    · exact .inr hfresh
    · exact .inl (hsound.nodes id hid hfresh)
  · rw [hrewires.edge_iff, ← hsound.rewired_worklist_iff, Rewired, Rewired, hedges]
    exact Iff.rfl

theorem Sound.path_of_reads (hsound : hive.Sound) {wired : Pass}
    (hrewires : Pass.Rewires hive.opening wired hive.worklist) {source target : CoordinateId}
    (hpath : TransGen hive.Reads source target) : TransGen wired.graph.Edge source target :=
  TransGen.mono (fun _ _ => ((hsound.wires hrewires).2 _ _).mpr) _ _ hpath

/-- A hive after a pass that rewired everything and then moved values. -/
theorem Sound.swept (hsound : hive.Sound) {wired : Pass} {after : Hive}
    (hrewires : Pass.Rewires hive.opening wired hive.worklist)
    (hrevalues : RegionTree.Revalues hive.tree after.tree) (hgraph : after.graph = wired.graph)
    (hregistry : after.registry = hive.registry)
    (hpending : after.pending = .empty ∨ after.pending = hive.pending) :
    after.Sound := by
  obtain ⟨hhas, hedges⟩ := hsound.wires hrewires
  obtain ⟨hnotifies, htree⟩ := hrevalues.keeps hsound.tree
  have hwaits : (∀ id, id ∈ after.pending.fresh → id ∈ hive.registry) ∧
      (∀ id, id ∈ after.pending.invalidated → id ∈ hive.registry) ∧
        ∀ id, id ∈ after.pending.rewired → id ∈ hive.registry := by
    rcases hpending with hpending | hpending
    · rw [hpending]
      exact ⟨fun _ hid => absurd hid CoordinateSet.not_mem_empty,
        fun _ hid => absurd hid CoordinateSet.not_mem_empty,
        fun _ hid => absurd hid CoordinateSet.not_mem_empty⟩
    · rw [hpending]
      exact ⟨hsound.fresh, hsound.invalidated, hsound.rewired⟩
  simp only [Reads, ← hregistry] at hwaits hhas hedges
  refine ⟨htree, hgraph ▸ hrewires.sound, hregistry ▸ hsound.nodup, fun id hid => ?_, hwaits.1,
    hwaits.2.1, hwaits.2.2, fun prerequisite id hedge => ?_, fun id hid _ => hgraph ▸ hhas id hid,
    fun id hid _ _ prerequisite => ?_⟩
  · obtain ⟨coordinate, hcoordinate⟩ := hsound.known id (hregistry ▸ hid)
    obtain ⟨new, hnew, _⟩ := hnotifies.told id coordinate hcoordinate
    exact ⟨new, hnew⟩
  · rw [hgraph, hedges] at hedge
    exact hedge.1
  · rw [hgraph, hedges, hrevalues.toSteady.prerequisites hsound.tree.network.laid.builtIn]
    exact and_iff_right hid

/-- A pass that was refused leaves the edges of what it did not get to, which still waits. -/
theorem Sound.refused (hsound : hive.Sound) {pass : Pass} {done rest : List CoordinateId}
    {id : CoordinateId} (hworklist : hive.worklist = done ++ id :: rest)
    (hrefused : Pass.Refused hive.opening pass done id) (failure : LayoutError) :
    ((hive.idle.endPass pass).abort hive.pending failure).Sound := by
  obtain ⟨_, hhas, hedges⟩ := opening_spec hsound.graph
  have hdone : ∀ other ∈ done, other ∈ hive.worklist := fun other hother =>
    hworklist ▸ List.mem_append_left (id :: rest) hother
  have hid : id ∈ hive.worklist := hworklist ▸ by simp
  rw [abort_eq]
  refine ⟨?_, hrefused.sound, hsound.nodup, ?_, hsound.fresh, hsound.invalidated, hsound.rewired,
    fun prerequisite other hedge => ?_, fun other hother hfresh => ?_,
    fun other hother hfresh hrewired prerequisite => ?_⟩
  · exact hrefused.tree ▸ hsound.tree
  · exact hrefused.tree ▸ hsound.known
  · by_cases heq : other = id
    · exact heq ▸ hsound.worklist id hid
    · rcases (hrefused.edge_iff prerequisite other heq).mp hedge with ⟨hmem, _⟩ | ⟨_, hold⟩
      · exact hsound.worklist other (hdone other hmem)
      · exact hsound.dependents prerequisite other ((hedges prerequisite other).mp hold)
  · exact hrefused.has other ((hhas other).mpr (.inl (hsound.nodes other hother hfresh)))
  · have hidle : other ∉ hive.worklist := mem_worklist.not.mpr (not_or.mpr ⟨hfresh, hrewired⟩)
    refine (hrefused.edge_iff prerequisite other (ne_of_mem_of_not_mem hid hidle).symm).trans ?_
    rw [Rewired.of_not_mem fun hmem => hidle (hdone other hmem), hedges,
      hsound.wired other hother hfresh hrewired prerequisite]
    rw [hrefused.tree]
    exact Iff.rfl

theorem revalues_of_visits {wired last : Pass} {log : List (CoordinateId × Flow)}
    (hrewires : Pass.Rewires hive.opening wired hive.worklist)
    (hvisits : Graph.Visits Pass.calculate log (hive.seeding wired) last) :
    RegionTree.Revalues hive.tree last.tree := by
  have hwired : (hive.seeding wired).tree = hive.tree := hrewires.tree
  exact hwired ▸ (Pass.sweeps hvisits).revalues

theorem calculations_of_visits {wired last : Pass} {log : List (CoordinateId × Flow)}
    (hrewires : Pass.Rewires hive.opening wired hive.worklist)
    (hvisits : Graph.Visits Pass.calculate log (hive.seeding wired) last) :
    calculations last.trace = calculations hive.trace ++ log.map Prod.fst := by
  have hopening : calculations hive.opening.trace = calculations hive.trace :=
    (calculations_push hive.trace .passStarted).trans (List.append_nil _)
  have hseeding : (hive.seeding wired).trace = wired.trace := rfl
  rw [(Pass.sweeps hvisits).calculations, hseeding, hrewires.calculations, hopening]

theorem registered_of_orderly (hsound : hive.Sound) {wired : Pass}
    {log : List (CoordinateId × Flow)}
    (hrewires : Pass.Rewires hive.opening wired hive.worklist)
    (horderly : Graph.Orderly wired.graph (hive.starts hive.pending) log) :
    ∀ id ∈ log.map Prod.fst, id ∈ hive.registry := by
  intro id hid
  rcases horderly.wanted id hid with ⟨hstart, _⟩ | ⟨source, _, hedge⟩
  · exact hsound.starts id hstart
  · exact (((hsound.wires hrewires).2 source id).mp hedge).1

theorem Sound.ends (hsound : hive.Sound) {result : Except LayoutError LayoutStats × Hive}
    (hends : hive.Ends result) : result.2.Sound := by
  cases hends with
  | refused cause hworklist hrefused => exact hsound.refused hworklist hrefused _
  | failed hrewires hvisits horderly hdue hfails =>
      obtain ⟨_, hrevalues, _, hgraph, _⟩ := Pass.calculate_error hfails
      rw [abort_eq]
      exact hsound.swept hrewires ((revalues_of_visits hrewires hvisits).trans hrevalues)
        (hgraph.trans (Pass.sweeps hvisits).graph) rfl (.inr rfl)
  | finished hrewires hvisits horderly hcomplete =>
      exact hsound.swept hrewires (revalues_of_visits hrewires hvisits)
        (Pass.sweeps hvisits).graph rfl (.inl rfl)

theorem Sound.perform (hsound : hive.Sound) (action : Action) : (hive.perform action).Sound := by
  by_cases hlayout : action.isLayout = true
  · cases action with
    | layout => exact hsound.ends (ends_layout hsound)
    | _ => contradiction
  · obtain ⟨created, hadvances, _⟩ := advances_perform hsound (Bool.not_eq_true _ ▸ hlayout)
    exact hsound.advances hadvances

/-- However a session went, the hive is sound. -/
theorem sound_after (config : HiveConfig) (actions : List Action) :
    (after config actions).Sound :=
  List.foldlRecOn actions Hive.perform (sound_ofConfig config) fun _ hsound action _ =>
    hsound.perform action

end Hive

end RegionLayout
