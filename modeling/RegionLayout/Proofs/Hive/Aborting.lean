import RegionLayout.Proofs.Hive.Fixpoint
import RegionLayout.Proofs.Hive.Routing

/-!
Passes that fail. Whether it is refused while it rewires or stops at a coordinate that cannot be
calculated, a pass puts back the work it took up and leaves nothing changed but edges, which still
lead nowhere around, and the values of what it calculated before.
-/

namespace RegionLayout

namespace RegionTree

/-- Calculates coordinates one after the other. -/
def calculateAll (tree : RegionTree) (ids : List CoordinateId) : RegionTree :=
  ids.foldl (fun tree id => (tree.calculate id).2) tree

theorem bare_calculateAll (tree : RegionTree) (ids : List CoordinateId) :
    (tree.calculateAll ids).bare = tree.bare :=
  foldl_related (r := fun before after : RegionTree => after.bare = before.bare) revaluing_bare.refl
    revaluing_bare.trans (fun state id _ => revaluing_bare.calculating.calculate state id) tree

end RegionTree

/-! What a pass does to its tree. -/

namespace Graph

variable {α ε σ : Type} {visit : Visitor α ε σ}

theorem Visits.split {first second : List (α × Flow)} {start last : σ}
    (hvisits : Visits visit (first ++ second) start last) :
    ∃ middle, Visits visit first start middle ∧ Visits visit second middle last := by
  induction first generalizing start with
  | nil => exact ⟨start, .nil start, hvisits⟩
  | cons entry rest ih =>
      cases hvisits with
      | cons hvisit hrest =>
          obtain ⟨middle, hearlier, hlater⟩ := ih hrest
          exact ⟨middle, .cons hvisit hearlier, hlater⟩

end Graph

namespace Pass

variable {before after : Pass} {log : List (CoordinateId × Flow)}

theorem tree_calculate (pass : Pass) (id : CoordinateId) :
    (Pass.calculate id pass).2.tree = (pass.tree.calculate id).2 := by
  unfold Pass.calculate
  dsimp only
  split
  next hcalculate => rw [hcalculate]
  next hcalculate =>
    rw [hcalculate]
    split <;> rfl

theorem tree_of_visits (hvisits : Graph.Visits Pass.calculate log before after) :
    after.tree = before.tree.calculateAll (log.map Prod.fst) := by
  induction hvisits with
  | nil state => rfl
  | @cons id flow log first second last hvisit _ ih =>
      have hsecond : second.tree = (first.tree.calculate id).2 := by
        rw [← tree_calculate, hvisit]
      rw [ih, hsecond]
      rfl

/-- What was calculated holds what its recipe came to when its turn was. -/
theorem agrees_of_visits (hvisits : Graph.Visits Pass.calculate log before after)
    (hnodup : (log.map Prod.fst).Nodup) {earlier later : List CoordinateId} {id : CoordinateId}
    (hlog : log.map Prod.fst = earlier ++ id :: later) :
    ∃ value, (before.tree.calculateAll earlier).evaluate id = .ok value ∧
      Agrees (after.tree.relative id) value := by
  obtain ⟨done, todo, rfl, rfl, hrest⟩ := List.map_eq_append_iff.mp hlog
  obtain ⟨⟨_, flow⟩, rest, rfl, rfl, rfl⟩ := List.map_eq_cons_iff.mp hrest
  obtain ⟨first, hearlier, hlater⟩ := hvisits.split
  cases hlater with
  | @cons _ _ _ _ second _ hvisit hrest =>
      have hcalculates := calculates hvisit
      obtain ⟨value, hvalue⟩ := hcalculates.value
      rw [List.map_append, List.map_cons, List.nodup_append, List.nodup_cons] at hnodup
      refine ⟨value, tree_of_visits hearlier ▸ hvalue, ?_⟩
      rw [(sweeps hrest).relative _ hnodup.2.1.1, hcalculates.relative, if_pos rfl, hvalue]
      exact agrees_settled _ value

end Pass

namespace Hive

/-- Where a pass stopped: at an edge, before it calculated anything, or at the coordinate whose turn
was next. -/
inductive Stops (before after : Hive) : LayoutError → Prop where
  | refused (cause : CycleError CoordinateId) (hnone : before.recalculated = [])
      (htree : after.tree = before.tree) : Stops before after (.cycle cause)
  | failed {id : CoordinateId} {failure : LayoutError} (hregistered : id ∈ before.registry)
      (hfresh : id ∉ before.recalculated)
      (hvalue : (before.tree.calculateAll before.recalculated).evaluate id = .error failure)
      (htree : after.tree = ((before.tree.calculateAll before.recalculated).calculate id).2) :
      Stops before after failure

/-- A hive after a pass that failed. -/
structure Restores (before after : Hive) (failure : LayoutError) : Prop where
  /-- What waited waits again, and nothing is registered, stored or counted. -/
  rest : after = { before with tree := after.tree, graph := after.graph, trace := after.trace }
  /-- In the tree only values moved, and announcements of them were made. -/
  bare : after.tree.bare = before.tree.bare
  acyclic : Acyclic after.graph.Edge
  stopped : Stops before after failure
  /-- What was calculated holds what its recipe came to when its turn was. -/
  calculated : ∀ earlier id later, before.recalculated = earlier ++ id :: later →
    ∃ value, (before.tree.calculateAll earlier).evaluate id = .ok value ∧
      Agrees (after.tree.relative id) value
  /-- All else holds what it held, the coordinate that failed among it. -/
  spared : ∀ id ∉ before.recalculated, after.tree.relative id = before.tree.relative id

variable {hive : Hive}

namespace Recalculates

variable {start last : Pass} {log : List (CoordinateId × Flow)}
  (hrecalculates : hive.Recalculates start last log)

include hrecalculates

theorem tree_last : last.tree = hive.tree.calculateAll hive.recalculated := by
  rw [Pass.tree_of_visits hrecalculates.visits, hrecalculates.tree, hrecalculates.recalculated]

theorem agrees {earlier later : List CoordinateId} {id : CoordinateId}
    (hsplit : hive.recalculated = earlier ++ id :: later) :
    ∃ value, (hive.tree.calculateAll earlier).evaluate id = .ok value ∧
      Agrees (hive.layout.2.tree.relative id) value := by
  rw [← hrecalculates.tree, hrecalculates.relative]
  exact Pass.agrees_of_visits hrecalculates.visits hrecalculates.nodup
    (hrecalculates.recalculated ▸ hsplit)

end Recalculates

theorem Stops.bare {after : Hive} {failure : LayoutError} (hstops : Stops hive after failure) :
    after.tree.bare = hive.tree.bare := by
  cases hstops with
  | refused cause hnone htree => rw [htree]
  | failed hregistered hfresh hvalue htree =>
      rw [htree, RegionTree.revaluing_bare.calculating.calculate, RegionTree.bare_calculateAll]

theorem Sound.stops (hsound : hive.Sound) {failure : LayoutError}
    (hfails : hive.layout.1 = .error failure) : Stops hive hive.layout.2 failure ∧
      ∃ pass : Pass, hive.layout.2 = (hive.idle.endPass pass).abort hive.pending failure := by
  have hends := ends_layout hsound
  generalize hresult : hive.layout = result at hends hfails
  cases hends with
  | @refused done rest id pass cause hworklist hrefused =>
      rw [← Except.error.inj hfails]
      exact ⟨.refused cause (recalculated_of_refused hrefused hresult) hrefused.tree, pass, rfl⟩
  | @failed wired last final log id cause hrewires hvisits horderly hdue hfails' =>
      rw [← Except.error.inj hfails]
      have hrecalculates := recalculates_of_failed hsound hrewires hvisits horderly hfails' hresult
      obtain ⟨hvalue, _⟩ := Pass.calculate_error hfails'
      refine ⟨.failed ((hrecalculates.wanted_iff hrewires hsound).mp hdue.wanted).1
        (hrecalculates.recalculated ▸ hdue.fresh) (hrecalculates.tree_last ▸ hvalue) ?_, final, rfl⟩
      rw [← hrecalculates.tree_last, ← Pass.tree_calculate, hfails']
      rfl
  | finished hrewires hvisits horderly hcomplete => contradiction

theorem Sound.restores (hsound : hive.Sound) {failure : LayoutError}
    (hfails : hive.layout.1 = .error failure) : Restores hive hive.layout.2 failure := by
  have hafter : hive.layout.2.Sound := hsound.ends (ends_layout hsound)
  obtain ⟨start, last, log, hrecalculates⟩ := exists_recalculates hsound
  obtain ⟨hstops, pass, haborted⟩ := hsound.stops hfails
  refine ⟨?_, hstops.bare, hafter.graph.edge_acyclic, hstops,
    fun _ _ _ hsplit => hrecalculates.agrees hsplit,
    fun _ hid => hrecalculates.relative_of_not_mem hid⟩
  rw [haborted, abort_eq]

/-- After any moves, a layout that fails loses no work: what waited waits again, edges still lead
nowhere around, and what was calculated before the failure is all that may hold another value. -/
theorem layout_restores (config : HiveConfig) (moves : List Move) {failure : LayoutError}
    (hfails : (reached config moves).layout.1 = .error failure) :
    Restores (reached config moves) (reached config moves).layout.2 failure :=
  (sound_reached config moves).restores hfails

/-- A region has widened when another is spawned before it whose far edge is measured from a sibling
that is not there. -/
def stranded : List Move :=
  [.act (.edit (.make "zero" (.constant 0.0))), .act (.edit (.make "width" (.constant 10.0))),
    .act (.newRegion ⟨some ("zero", "width"), some ("zero", "width"), none, none, []⟩),
    .act .layout,
    .act (.edit (.setConstant "width" 40.0)),
    .act (.edit (.make "peer" (.sibling .beta true 0.0))),
    .act (.newRegion ⟨some ("zero", "peer"), some ("zero", "width"), none, some 0, []⟩)]

/-- The pass fails at that edge, when the wider region is calculated. -/
theorem stranded_restores :
    (reached .standard stranded).layout.1 =
        .error (.noPreviousPeer (some ⟨⟨2⟩, .x, .beta⟩)) ∧
      (reached .standard stranded).recalculated =
        [⟨⟨1⟩, .x, .beta⟩, ⟨⟨1⟩, .y, .beta⟩, ⟨⟨2⟩, .x, .alpha⟩] ∧
      Restores (reached .standard stranded) (reached .standard stranded).layout.2
        (.noPreviousPeer (some ⟨⟨2⟩, .x, .beta⟩)) := by
  have hfails : (reached .standard stranded).layout.1 =
      .error (.noPreviousPeer (some ⟨⟨2⟩, .x, .beta⟩)) := by
    decide +kernel
  exact ⟨hfails, by decide +kernel, layout_restores .standard stranded hfails⟩

end Hive

end RegionLayout
