import RegionLayout.Proofs.Hive.Passes

/-!
What a pass recomputes. A pass that succeeds calculates its starts and whatever reads a value that
moved, each coordinate once, and after everything it reads through registered coordinates.
-/

namespace RegionLayout

open Relation

namespace Hive

/-- What the next pass calculates, in its order. -/
def recalculated (hive : Hive) : List CoordinateId :=
  (calculations hive.layout.2.trace).drop (calculations hive.trace).length

/-- Whether the next pass moves the relative value of a coordinate. -/
def moves (hive : Hive) (id : CoordinateId) : Bool :=
  hive.tree.relative id != hive.layout.2.tree.relative id

structure Recomputes (hive : Hive) (stats : LayoutStats) : Prop where
  nodup : hive.recalculated.Nodup
  registered : ∀ id ∈ hive.recalculated, id ∈ hive.registry
  mem_iff : ∀ id ∈ hive.registry, (id ∈ hive.recalculated ↔ id ∈ hive.starts hive.pending ∨
    ∃ prerequisite ∈ hive.tree.prerequisites id,
      prerequisite ∈ hive.recalculated ∧ hive.moves prerequisite = true)
  ordered : ∀ id ∈ hive.recalculated, ∀ prerequisite ∈ hive.recalculated,
    TransGen hive.Reads prerequisite id →
      hive.recalculated.idxOf prerequisite < hive.recalculated.idxOf id
  starts_nodup : (hive.starts hive.pending).Nodup
  worklist_nodup : hive.worklist.Nodup
  stats : stats = {
    seeded := (hive.starts hive.pending).length
    calculated := hive.recalculated.length
    stopped := hive.recalculated.countP fun id => !hive.moves id
    rewired := hive.worklist.length }

variable {hive : Hive}

theorem nodup_starts (hsound : hive.Sound) : (hive.starts hive.pending).Nodup := by
  unfold starts
  split
  · exact hsound.nodup
  · exact CoordinateSet.nodup _

/-- The calculations of a pass, whether or not it succeeds. -/
structure Recalculates (hive : Hive) (start last : Pass) (log : List (CoordinateId × Flow)) :
    Prop where
  visits : Graph.Visits Pass.calculate log start last
  tree : start.tree = hive.tree
  recalculated : hive.recalculated = log.map Prod.fst
  registered : ∀ id ∈ log.map Prod.fst, id ∈ hive.registry
  nodup : (log.map Prod.fst).Nodup
  ordered : (log.map Prod.fst).Pairwise fun earlier later => ¬ TransGen hive.Reads later earlier
  acyclic : ∀ id ∈ log.map Prod.fst, ¬ TransGen hive.Reads id id
  revalues : RegionTree.Revalues last.tree hive.layout.2.tree
  relative : ∀ id, hive.layout.2.tree.relative id = last.tree.relative id

/-- The calculations of a pass that succeeds. -/
structure Finishes (hive : Hive) (wired last : Pass) (log : List (CoordinateId × Flow)) :
    Prop extends Recalculates hive (hive.seeding wired) last log where
  rewires : Pass.Rewires hive.opening wired hive.worklist
  orderly : Graph.Orderly wired.graph (hive.starts hive.pending) log
  complete : ∀ id, wired.graph.Wanted (hive.starts hive.pending) log id → id ∈ log.map Prod.fst
  layout : hive.layout = (.ok last.stats, (hive.idle.endPass last).succeed last.stats)

theorem recalculates_of_orderly (hsound : hive.Sound) {wired last : Pass}
    {log : List (CoordinateId × Flow)}
    (hrewires : Pass.Rewires hive.opening wired hive.worklist)
    (hvisits : Graph.Visits Pass.calculate log (hive.seeding wired) last)
    (horderly : Graph.Orderly wired.graph (hive.starts hive.pending) log)
    (hcalculations : calculations hive.layout.2.trace = calculations last.trace)
    (hrevalues : RegionTree.Revalues last.tree hive.layout.2.tree)
    (hrelative : ∀ id, hive.layout.2.tree.relative id = last.tree.relative id) :
    hive.Recalculates (hive.seeding wired) last log where
  visits := hvisits
  tree := hrewires.tree
  recalculated := by
    rw [Hive.recalculated, hcalculations, calculations_of_visits hrewires hvisits, List.drop_left]
  registered := registered_of_orderly hsound hrewires horderly
  nodup := horderly.nodup
  ordered := horderly.ordered.imp fun hopen hpath => hopen (hsound.path_of_reads hrewires hpath)
  acyclic id _ hpath := hrewires.sound.edge_acyclic id (hsound.path_of_reads hrewires hpath)
  revalues := hrevalues
  relative := hrelative

theorem finishes_of_layout (hsound : hive.Sound) {wired last : Pass}
    {log : List (CoordinateId × Flow)}
    (hrewires : Pass.Rewires hive.opening wired hive.worklist)
    (hvisits : Graph.Visits Pass.calculate log (hive.seeding wired) last)
    (horderly : Graph.Orderly wired.graph (hive.starts hive.pending) log)
    (hcomplete : ∀ id, wired.graph.Wanted (hive.starts hive.pending) log id →
      id ∈ log.map Prod.fst)
    (hlayout : hive.layout = (.ok last.stats, (hive.idle.endPass last).succeed last.stats)) :
    hive.Finishes wired last log where
  toRecalculates := by
    refine recalculates_of_orderly hsound hrewires hvisits horderly ?_ ?_ fun id => ?_
    · rw [hlayout]
      simp only [succeed, follow, endPass, calculations_push, TraceEvent.calculated?,
        Option.toList_none, List.append_nil]
    · rw [hlayout]
      exact .refl last.tree
    · rw [hlayout]
      rfl
  rewires := hrewires
  orderly := horderly
  complete := hcomplete
  layout := hlayout

theorem Finishes.pending {wired last : Pass} {log : List (CoordinateId × Flow)}
    (hfinishes : hive.Finishes wired last log) : hive.layout.2.pending = .empty := by
  rw [hfinishes.layout]
  rfl

theorem exists_finishes (hsound : hive.Sound) {stats : LayoutStats}
    (hlayout : hive.layout.1 = .ok stats) : ∃ wired last log, hive.Finishes wired last log := by
  have hends := ends_layout hsound
  generalize hresult : hive.layout = result at hends hlayout
  cases hends with
  | refused cause hworklist hrefused => contradiction
  | failed hrewires hvisits horderly hdue hfails => contradiction
  | finished hrewires hvisits horderly hcomplete =>
      exact ⟨_, _, _, finishes_of_layout hsound hrewires hvisits horderly hcomplete hresult⟩

theorem recalculates_of_failed (hsound : hive.Sound) {wired last final : Pass}
    {log : List (CoordinateId × Flow)} {id : CoordinateId} {failure : LayoutError}
    (hrewires : Pass.Rewires hive.opening wired hive.worklist)
    (hvisits : Graph.Visits Pass.calculate log (hive.seeding wired) last)
    (horderly : Graph.Orderly wired.graph (hive.starts hive.pending) log)
    (hfails : Pass.calculate id last = (.error failure, final))
    (hlayout : hive.layout =
      (.error failure, (hive.idle.endPass final).abort hive.pending failure)) :
    hive.Recalculates (hive.seeding wired) last log := by
  obtain ⟨_, hrevalues, hrelative, _, hcalculations⟩ := Pass.calculate_error hfails
  apply recalculates_of_orderly hsound hrewires hvisits horderly
  · rw [hlayout]
    exact (calculations_push final.trace _).trans ((List.append_nil _).trans hcalculations)
  · rw [hlayout]
    exact hrevalues
  · rw [hlayout]
    exact hrelative

theorem recalculated_of_refused {pass : Pass} {done : List CoordinateId} {id : CoordinateId}
    {failure : LayoutError} (hrefused : Pass.Refused hive.opening pass done id)
    (hlayout : hive.layout =
      (.error failure, (hive.idle.endPass pass).abort hive.pending failure)) :
    hive.recalculated = [] := by
  have hcalculations : calculations hive.layout.2.trace = calculations hive.trace := by
    rw [hlayout]
    refine (calculations_push pass.trace _).trans ((List.append_nil _).trans ?_)
    exact hrefused.calculations.trans
      ((calculations_push hive.trace .passStarted).trans (List.append_nil _))
  rw [recalculated, hcalculations, List.drop_length]

theorem exists_recalculates (hsound : hive.Sound) :
    ∃ start last log, hive.Recalculates start last log := by
  have hends := ends_layout hsound
  generalize hresult : hive.layout = result at hends
  cases hends with
  | @refused done rest id pass cause hworklist hrefused =>
      have htree : hive.layout.2.tree = hive.tree := by
        rw [hresult]
        exact hrefused.tree
      exact ⟨hive.opening, hive.opening, [], .nil hive.opening, rfl,
        recalculated_of_refused hrefused hresult, by simp, by simp, by simp, by simp,
        htree ▸ .refl hive.tree, fun id => htree ▸ rfl⟩
  | @failed wired last final log id failure hrewires hvisits horderly hdue hfails =>
      exact ⟨_, last, log,
        recalculates_of_failed hsound hrewires hvisits horderly hfails hresult⟩
  | @finished wired last log hrewires hvisits horderly hcomplete =>
      have hfinishes := finishes_of_layout hsound hrewires hvisits horderly hcomplete hresult
      exact ⟨_, last, log, hfinishes.toRecalculates⟩

namespace Recalculates

variable {start last : Pass} {log : List (CoordinateId × Flow)}

theorem stops_iff (hrecalculates : hive.Recalculates start last log) {id : CoordinateId}
    {flow : Flow} (hmem : (id, flow) ∈ log) : flow = Flow.stop ↔ hive.moves id = false := by
  rw [Pass.flow_iff hrecalculates.visits hrecalculates.nodup hmem, moves, hrecalculates.tree,
    hrecalculates.relative, bne, Bool.not_eq_false']

theorem passes_iff (hrecalculates : hive.Recalculates start last log) {id : CoordinateId} :
    (id, Flow.pass) ∈ log ↔ id ∈ hive.recalculated ∧ hive.moves id = true := by
  rw [hrecalculates.recalculated, List.mem_map]
  constructor
  · intro hmem
    refine ⟨⟨(id, .pass), hmem, rfl⟩, ?_⟩
    have hmoves := (hrecalculates.stops_iff hmem).not.mp Flow.noConfusion
    rwa [Bool.not_eq_false] at hmoves
  · rintro ⟨⟨⟨_, flow⟩, hmem, rfl⟩, hmoves⟩
    cases flow with
    | pass => exact hmem
    | stop =>
        rw [(hrecalculates.stops_iff hmem).mp rfl] at hmoves
        contradiction

theorem idxOf_lt (hrecalculates : hive.Recalculates start last log) {id prerequisite : CoordinateId}
    (hid : id ∈ hive.recalculated) (hprerequisite : prerequisite ∈ hive.recalculated)
    (hpath : TransGen hive.Reads prerequisite id) :
    hive.recalculated.idxOf prerequisite < hive.recalculated.idxOf id := by
  have hordered := hrecalculates.ordered
  have hacyclic := hrecalculates.acyclic
  rw [← hrecalculates.recalculated] at hordered hacyclic
  exact idxOf_lt_of_pairwise hordered hprerequisite hid (hacyclic _ hprerequisite) hpath

theorem wanted_iff {wired : Pass} (hrecalculates : hive.Recalculates (hive.seeding wired) last log)
    (hrewires : Pass.Rewires hive.opening wired hive.worklist) (hsound : hive.Sound)
    {id : CoordinateId} : wired.graph.Wanted (hive.starts hive.pending) log id ↔
      id ∈ hive.registry ∧ (id ∈ hive.starts hive.pending ∨
        ∃ prerequisite ∈ hive.tree.prerequisites id,
          prerequisite ∈ hive.recalculated ∧ hive.moves prerequisite = true) := by
  obtain ⟨hhas, hedges⟩ := hsound.wires hrewires
  constructor
  · rintro (⟨hstart, _⟩ | ⟨source, hpasses, hedge⟩)
    · exact ⟨hsound.starts id hstart, .inl hstart⟩
    · obtain ⟨hregistered, hreads⟩ := (hedges source id).mp hedge
      exact ⟨hregistered, .inr ⟨source, hreads, hrecalculates.passes_iff.mp hpasses⟩⟩
  · rintro ⟨hregistered, hstart | ⟨source, hreads, hpasses⟩⟩
    · exact .inl ⟨hstart, hhas id hregistered⟩
    · exact .inr ⟨source, hrecalculates.passes_iff.mpr hpasses, (hedges source id).mpr
        ⟨hregistered, hreads⟩⟩

end Recalculates

namespace Finishes

variable {wired last : Pass} {log : List (CoordinateId × Flow)}

theorem wanted_iff (hfinishes : hive.Finishes wired last log) (hsound : hive.Sound)
    {id : CoordinateId} : wired.graph.Wanted (hive.starts hive.pending) log id ↔
      id ∈ hive.registry ∧ (id ∈ hive.starts hive.pending ∨
        ∃ prerequisite ∈ hive.tree.prerequisites id,
          prerequisite ∈ hive.recalculated ∧ hive.moves prerequisite = true) :=
  hfinishes.toRecalculates.wanted_iff hfinishes.rewires hsound

theorem acyclic_reads (hfinishes : hive.Finishes wired last log) (hsound : hive.Sound) :
    Acyclic hive.Reads :=
  (Acyclic.congr (hsound.wires hfinishes.rewires).2).mp hfinishes.rewires.sound.edge_acyclic

theorem mem_recalculated_iff (hfinishes : hive.Finishes wired last log) (hsound : hive.Sound)
    {id : CoordinateId} : id ∈ hive.recalculated ↔
      id ∈ hive.registry ∧ (id ∈ hive.starts hive.pending ∨
        ∃ prerequisite ∈ hive.tree.prerequisites id,
          prerequisite ∈ hive.recalculated ∧ hive.moves prerequisite = true) := by
  rw [← hfinishes.wanted_iff hsound, hfinishes.recalculated]
  exact ⟨hfinishes.orderly.wanted id, hfinishes.complete id⟩

theorem stats_eq (hfinishes : hive.Finishes wired last log) : last.stats = {
    seeded := (hive.starts hive.pending).length
    calculated := hive.recalculated.length
    stopped := hive.recalculated.countP fun id => !hive.moves id
    rewired := hive.worklist.length } := by
  have hstopped : (log.countP fun entry => entry.2 = .stop) =
      (log.map Prod.fst).countP fun id => !hive.moves id := by
    rw [List.countP_map]
    refine List.countP_congr fun entry hentry => ?_
    obtain ⟨id, flow⟩ := entry
    simp [hfinishes.stops_iff hentry]
  rw [(Pass.sweeps hfinishes.visits).stats, hstopped, hfinishes.recalculated, List.length_map]
  simp only [seeding, hfinishes.rewires.stats]
  simp [opening, Pass.addNodes, beginPass, LayoutStats.zero]

end Finishes

/-- After any session, a pass that succeeds recomputes what it has to, in order. -/
theorem layout_recomputes (config : HiveConfig) (actions : List Action) {stats : LayoutStats}
    (hlayout : (after config actions).layout.1 = .ok stats) :
    (after config actions).Recomputes stats := by
  have hsound := sound_after config actions
  generalize after config actions = hive at hlayout hsound
  obtain ⟨wired, last, log, hfinishes⟩ := exists_finishes hsound hlayout
  rw [hfinishes.layout] at hlayout
  refine ⟨?_, fun id hid => ((hfinishes.mem_recalculated_iff hsound).mp hid).1, fun id hid => ?_,
    fun id hid prerequisite hprerequisite => hfinishes.idxOf_lt hid hprerequisite,
    nodup_starts hsound, CoordinateSet.nodup _, ?_⟩
  · rw [hfinishes.recalculated]
    exact hfinishes.nodup
  · rw [hfinishes.mem_recalculated_iff hsound, and_iff_right hid]
  · rw [← Except.ok.inj hlayout]
    exact hfinishes.stats_eq

/-- A region starts where a cell ends that spans another region, and that is not registered. -/
def bystander : List Action :=
  [.edit (.make "zero" (.constant 0.0)), .edit (.make "ten" (.constant 10.0)),
    .edit (.make "twenty" (.constant 20.0)),
    .newRegion ⟨some ("zero", "ten"), some ("zero", "ten"), none, none, []⟩,
    .newRegion ⟨some ("zero", "twenty"), some ("zero", "ten"), none, none, []⟩,
    .edit (.make "span" (.ancestorSpan 1 1.0)),
    .edit (.createCell ⟨"zero", "span", "zero", "ten"⟩),
    .edit (.append ⟨2⟩ ⟨3⟩), .edit (.append ⟨2⟩ ⟨1⟩),
    .edit (.make "after" (.sibling .beta true 0.0)),
    .edit (.setRecipe ⟨⟨1⟩, .x, .alpha⟩ "after")]

theorem bystander_recomputes :
    (after .standard bystander).layout.1 = .ok ⟨12, 12, 1, 12⟩ ∧
      (after .standard bystander).Recomputes ⟨12, 12, 1, 12⟩ :=
  ⟨by decide +kernel, layout_recomputes .standard bystander (by decide +kernel)⟩

/-- Through the cell the one region leads to the other, which is calculated before it. -/
theorem bystander_unordered :
    TransGen (fun prerequisite dependent =>
        prerequisite ∈ (after .standard bystander).tree.prerequisites dependent)
      ⟨⟨2⟩, .x, .beta⟩ ⟨⟨1⟩, .x, .alpha⟩ ∧
    ⟨⟨2⟩, .x, .beta⟩ ∈ (after .standard bystander).recalculated ∧
    ⟨⟨1⟩, .x, .alpha⟩ ∈ (after .standard bystander).recalculated ∧
    (after .standard bystander).recalculated.idxOf ⟨⟨1⟩, .x, .alpha⟩ <
      (after .standard bystander).recalculated.idxOf ⟨⟨2⟩, .x, .beta⟩ := by
  have hspan : ⟨⟨2⟩, .x, .beta⟩ ∈
      (after .standard bystander).tree.prerequisites ⟨⟨3⟩, .x, .beta⟩ := by decide +kernel
  have hafter : ⟨⟨3⟩, .x, .beta⟩ ∈
      (after .standard bystander).tree.prerequisites ⟨⟨1⟩, .x, .alpha⟩ := by decide +kernel
  refine ⟨.tail (.single hspan) hafter, ?_, ?_, ?_⟩ <;> decide +kernel

end Hive

end RegionLayout
