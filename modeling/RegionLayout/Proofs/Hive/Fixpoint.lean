import RegionLayout.Proofs.Hive.Recomputation
import RegionLayout.Proofs.Tree.Agreement

/-!
Layouts as fixpoints. A pass that succeeds leaves a coordinate current if it calculated it or found
it current. What an earlier pass failed to pass on stays owing: the coordinates behind a value that
moved before the failure are not taken up again by themselves.
-/

namespace RegionLayout.Hive

open Relation

variable {hive : Hive}

namespace Recalculates

variable {start last : Pass} {log : List (CoordinateId × Flow)}
  (hrecalculates : hive.Recalculates start last log)

include hrecalculates

theorem revalues_layout : RegionTree.Revalues hive.tree hive.layout.2.tree := by
  have hsweeps := (Pass.sweeps hrecalculates.visits).revalues
  exact hrecalculates.tree ▸ hsweeps.trans hrecalculates.revalues

theorem relative_of_not_mem {id : CoordinateId} (hid : id ∉ hive.recalculated) :
    hive.layout.2.tree.relative id = hive.tree.relative id := by
  rw [hrecalculates.recalculated] at hid
  rw [hrecalculates.relative, (Pass.sweeps hrecalculates.visits).relative id hid,
    hrecalculates.tree]

/-- A value changes in no other way than by a calculation that moves it. -/
theorem moves_of_ne {id : CoordinateId}
    (hne : hive.layout.2.tree.relative id ≠ hive.tree.relative id) :
    id ∈ hive.recalculated ∧ hive.moves id = true := by
  by_cases hid : id ∈ hive.recalculated
  · refine ⟨hid, ?_⟩
    rw [hrecalculates.recalculated, List.mem_map] at hid
    obtain ⟨⟨_, flow⟩, hmem, rfl⟩ := hid
    by_contra hstays
    have hstop := (hrecalculates.stops_iff hmem).mpr (Bool.not_eq_true _ ▸ hstays)
    have hsame := Pass.relative_of_stop hrecalculates.visits hrecalculates.nodup hmem hstop
    rw [hrecalculates.tree] at hsame
    exact hne ((hrecalculates.relative _).trans hsame)
  · exact absurd (hrecalculates.relative_of_not_mem hid) hne

/-- What was calculated is what its recipe comes to at the end. -/
theorem stored (hsound : hive.Sound) {id : CoordinateId} (hid : id ∈ hive.recalculated) :
    ∃ value, hive.layout.2.tree.evaluate id = .ok value ∧
      hive.layout.2.tree.relative id = RegionTree.settled (hive.tree.relative id) (.ok value) := by
  have hregistered := hrecalculates.registered id (hrecalculates.recalculated ▸ hid)
  have hacyclic := hrecalculates.acyclic id (hrecalculates.recalculated ▸ hid)
  rw [hrecalculates.recalculated, List.mem_map] at hid
  obtain ⟨⟨found, flow⟩, hmem, rfl⟩ := hid
  obtain ⟨earlier, later, first, second, hlog, hearlier, hcalculates, hlater, hstart, hafter⟩ :=
    Pass.exists_calculates_once hrecalculates.visits hrecalculates.nodup hmem
  have hbefore : RegionTree.Revalues hive.tree first.tree :=
    hrecalculates.tree ▸ hearlier.revalues
  have hrest : RegionTree.Revalues first.tree hive.layout.2.tree :=
    hcalculates.revalues.trans (hlater.revalues.trans hrecalculates.revalues)
  obtain ⟨_, hfirst⟩ := hbefore.keeps hsound.tree
  obtain ⟨value, hvalue⟩ := hcalculates.value
  have hordered := hrecalculates.ordered
  rw [hlog, List.map_append, List.map_cons, List.pairwise_append, List.pairwise_cons] at hordered
  obtain ⟨_, ⟨hlate, _⟩, _⟩ := hordered
  refine ⟨value, (hrest.evaluate_eq hfirst fun prerequisite hread => ?_).trans hvalue, ?_⟩
  · -- Whatever it reads was calculated before it, or not at all.
    rw [hbefore.prerequisites hsound.tree.network.laid.builtIn] at hread
    have hreads : TransGen hive.Reads prerequisite found := .single ⟨hregistered, hread⟩
    have hnotLater : prerequisite ∉ later.map Prod.fst := fun hmem => hlate _ hmem hreads
    have hne : prerequisite ≠ found := fun heq => hacyclic (heq ▸ hreads)
    rw [hrecalculates.relative, hlater.relative prerequisite hnotLater, hcalculates.relative,
      if_neg hne]
  · rw [hrecalculates.relative, hafter, hcalculates.relative, if_pos rfl, hvalue, hstart,
      hrecalculates.tree]

theorem current (hsound : hive.Sound) {id : CoordinateId} (hid : id ∈ hive.recalculated) :
    hive.layout.2.tree.Current id := by
  obtain ⟨value, hvalue, hstored⟩ := hrecalculates.stored hsound hid
  exact ⟨value, hvalue, hstored ▸ agrees_settled _ value⟩

end Recalculates

/-! What a pass is through with. -/

/-- A pass is through with a coordinate: it was calculated, or it did not wait and nothing that it
reads moved. -/
def Settles (hive : Hive) (id : CoordinateId) : Prop :=
  id ∈ hive.recalculated ∨ id ∉ hive.pending.fresh ∧ id ∉ hive.pending.invalidated ∧
    ∀ prerequisite ∈ hive.tree.prerequisites id,
      hive.layout.2.tree.relative prerequisite = hive.tree.relative prerequisite

theorem Sound.mem_starts (hsound : hive.Sound) {id : CoordinateId}
    (hwaits : id ∈ hive.pending.fresh ∨ id ∈ hive.pending.invalidated) :
    id ∈ hive.starts hive.pending := by
  unfold Hive.starts
  split
  · exact hwaits.elim (hsound.fresh id) (hsound.invalidated id)
  · exact CoordinateSet.mem_union.mpr hwaits

theorem Recalculates.settles_of_wanted {wired last : Pass} {log : List (CoordinateId × Flow)}
    (hrecalculates : hive.Recalculates (hive.seeding wired) last log)
    (hrewires : Pass.Rewires hive.opening wired hive.worklist) (hsound : hive.Sound)
    {id : CoordinateId} (hid : id ∈ hive.registry)
    (hvisited : wired.graph.Wanted (hive.starts hive.pending) log id → id ∈ log.map Prod.fst) :
    hive.Settles id := by
  by_cases hcalculated : id ∈ hive.recalculated
  · exact .inl hcalculated
  have hidle : ¬ (id ∈ hive.registry ∧ (id ∈ hive.starts hive.pending ∨
      ∃ prerequisite ∈ hive.tree.prerequisites id,
        prerequisite ∈ hive.recalculated ∧ hive.moves prerequisite = true)) := by
    rw [← hrecalculates.wanted_iff hrewires hsound]
    intro hwanted
    exact hcalculated (hrecalculates.recalculated ▸ hvisited hwanted)
  refine .inr ⟨fun hfresh => ?_, fun hinvalidated => ?_, fun prerequisite hread => ?_⟩
  · exact hidle ⟨hid, .inl (hsound.mem_starts (.inl hfresh))⟩
  · exact hidle ⟨hid, .inl (hsound.mem_starts (.inr hinvalidated))⟩
  · by_contra hne
    exact hidle ⟨hid, .inr ⟨prerequisite, hread, hrecalculates.moves_of_ne hne⟩⟩

theorem Finishes.settles {wired last : Pass} {log : List (CoordinateId × Flow)}
    (hfinishes : hive.Finishes wired last log) (hsound : hive.Sound) {id : CoordinateId}
    (hid : id ∈ hive.registry) : hive.Settles id :=
  hfinishes.settles_of_wanted hfinishes.rewires hsound hid (hfinishes.complete id)

theorem settles_of_ok (hsound : hive.Sound) {stats : LayoutStats}
    (hlayout : hive.layout.1 = .ok stats) {id : CoordinateId} (hid : id ∈ hive.registry) :
    hive.Settles id := by
  obtain ⟨wired, last, log, hfinishes⟩ := exists_finishes hsound hlayout
  exact hfinishes.settles hsound hid

theorem current_layout_iff (hsound : hive.Sound) {stats : LayoutStats}
    (hlayout : hive.layout.1 = .ok stats) {id : CoordinateId} (hregistered : id ∈ hive.registry) :
    hive.layout.2.tree.Current id ↔ id ∈ hive.recalculated ∨ hive.tree.Current id := by
  obtain ⟨wired, last, log, hfinishes⟩ := exists_finishes hsound hlayout
  by_cases hid : id ∈ hive.recalculated
  · exact iff_of_true (hfinishes.current hsound hid) (.inl hid)
  · obtain ⟨_, _, hunmoved⟩ := (hfinishes.settles hsound hregistered).resolve_left hid
    rw [or_iff_right hid]
    exact hfinishes.revalues_layout.current_iff hsound.tree hunmoved
      (hfinishes.relative_of_not_mem hid)

/-! Calculations that a failure left owing. -/

/-- What is owing after an action, if `owing` was before it. A pass adds what reads a value that
changed, and removes what it calculates. -/
def owes (hive : Hive) (owing : CoordinateId → Prop) : Action → CoordinateId → Prop
  | .layout => fun id => id ∈ hive.registry ∧ id ∉ hive.recalculated ∧
      (owing id ∨ ∃ prerequisite ∈ hive.tree.prerequisites id,
        hive.layout.2.tree.relative prerequisite ≠ hive.tree.relative prerequisite)
  | _ => owing

def owingFrom : Hive → (CoordinateId → Prop) → List Action → CoordinateId → Prop
  | _, owing, [] => owing
  | hive, owing, action :: rest => owingFrom (hive.perform action) (hive.owes owing action) rest

/-- What is owing after a session. -/
def owing (config : HiveConfig) (actions : List Action) : CoordinateId → Prop :=
  owingFrom (ofConfig config) (fun _ => False) actions

/-- What neither waits nor is owing is current, up to the order of children. -/
structure Tracked (hive : Hive) (owing : CoordinateId → Prop) : Prop where
  sound : hive.Sound
  current : ∀ id ∈ hive.registry, id ∉ hive.pending.fresh → id ∉ hive.pending.invalidated →
    ¬ owing id → hive.tree.CurrentInSomeOrder id

theorem tracked_ofConfig (config : HiveConfig) : (ofConfig config).Tracked fun _ => False where
  sound := sound_ofConfig config
  current id hid hfresh := by
    have hadvances := advances_ofConfig config
    have hcreated : id ∈ (CellId.mk 0).coordinates := by
      rw [hadvances.registry] at hid
      exact hid
    exact absurd ((hadvances.fresh id).mpr (.inr hcreated)) hfresh

/-- An edit announces whatever stops being current. -/
theorem Tracked.advances {after : Hive} {created : List CoordinateId}
    {owing : CoordinateId → Prop} (htracked : hive.Tracked owing)
    (hadvances : Advances hive after created) (hedits : RegionTree.Edits hive.tree after.tree) :
    after.Tracked owing where
  sound := htracked.sound.advances hadvances
  current id hid hfresh hinvalidated howing := by
    obtain ⟨htells, hafter⟩ := hedits htracked.sound.tree
    rw [hadvances.fresh, not_or] at hfresh
    rw [hadvances.invalidated, not_or] at hinvalidated
    rw [hadvances.registry, List.mem_append] at hid
    have hregistered := hid.resolve_right hfresh.2
    exact htells.currentInSomeOrder htracked.sound.tree hafter
      (fun htold => hinvalidated.2 ⟨hregistered, htold⟩)
      (htracked.current id hregistered hfresh.1 hinvalidated.1 howing)

/-- A pass that succeeds takes up all that waits; one that fails puts it back. -/
theorem waits_layout (hsound : hive.Sound) {id : CoordinateId} (hid : id ∉ hive.recalculated)
    (hwaits : id ∈ hive.pending.fresh ∨ id ∈ hive.pending.invalidated) :
    id ∈ hive.layout.2.pending.fresh ∨ id ∈ hive.layout.2.pending.invalidated := by
  have hends := ends_layout hsound
  have hregistered : id ∈ hive.registry := hwaits.elim (hsound.fresh id) (hsound.invalidated id)
  generalize hresult : hive.layout = result at hends
  cases hends with
  | refused cause hworklist hrefused => rwa [abort_eq]
  | failed hrewires hvisits horderly hdue hfails => rwa [abort_eq]
  | finished hrewires hvisits horderly hcomplete =>
      have hfinishes := finishes_of_layout hsound hrewires hvisits horderly hcomplete hresult
      obtain ⟨hfresh, hinvalidated, _⟩ := (hfinishes.settles hsound hregistered).resolve_left hid
      exact absurd hwaits (not_or.mpr ⟨hfresh, hinvalidated⟩)

theorem registry_layout (hsound : hive.Sound) : hive.layout.2.registry = hive.registry := by
  have hends := ends_layout hsound
  generalize hive.layout = result at hends
  cases hends <;> rfl

theorem Tracked.currentInSomeOrder {owing : CoordinateId → Prop} (htracked : hive.Tracked owing)
    {id : CoordinateId} (hid : id ∈ hive.registry) (hsettles : hive.Settles id)
    (howing : id ∈ hive.recalculated ∨ ¬ owing id) :
    hive.layout.2.tree.CurrentInSomeOrder id := by
  obtain ⟨start, last, log, hrecalculates⟩ := exists_recalculates htracked.sound
  by_cases hcalculated : id ∈ hive.recalculated
  · exact (hrecalculates.current htracked.sound hcalculated).inSomeOrder
  · obtain ⟨hfresh, hinvalidated, hunmoved⟩ := hsettles.resolve_left hcalculated
    exact hrecalculates.revalues_layout.currentInSomeOrder htracked.sound.tree hunmoved
      (hrecalculates.relative_of_not_mem hcalculated)
      (htracked.current id hid hfresh hinvalidated (howing.resolve_left hcalculated))

theorem Tracked.layout {owing : CoordinateId → Prop} (htracked : hive.Tracked owing) :
    hive.layout.2.Tracked (hive.owes owing .layout) where
  sound := htracked.sound.perform .layout
  current id hid hfresh hinvalidated howes := by
    rw [registry_layout htracked.sound] at hid
    by_cases hcalculated : id ∈ hive.recalculated
    · exact htracked.currentInSomeOrder hid (.inl hcalculated) (.inl hcalculated)
    · have hfree : ¬ (owing id ∨ ∃ prerequisite ∈ hive.tree.prerequisites id,
          hive.layout.2.tree.relative prerequisite ≠ hive.tree.relative prerequisite) :=
        fun hdue => howes ⟨hid, hcalculated, hdue⟩
      push Not at hfree
      have hrests : ¬ (id ∈ hive.pending.fresh ∨ id ∈ hive.pending.invalidated) := fun hwaits =>
        (waits_layout htracked.sound hcalculated hwaits).elim hfresh hinvalidated
      rw [not_or] at hrests
      exact htracked.currentInSomeOrder hid (.inr ⟨hrests.1, hrests.2, hfree.2⟩) (.inr hfree.1)

theorem Tracked.perform {owing : CoordinateId → Prop} (htracked : hive.Tracked owing)
    {action : Action} (hcalculate : action.isCalculate = false) :
    (hive.perform action).Tracked (hive.owes owing action) := by
  by_cases hlayout : action.isLayout = true
  · cases action with
    | layout => exact htracked.layout
    | _ => contradiction
  · rw [Bool.not_eq_true] at hlayout
    obtain ⟨created, hadvances, hedits⟩ := advances_perform htracked.sound hlayout
    have hsame : hive.owes owing action = owing := by
      cases action with
      | layout => contradiction
      | _ => rfl
    rw [hsame]
    exact htracked.advances hadvances (hedits hcalculate)

theorem Tracked.foldl {owing : CoordinateId → Prop} (htracked : hive.Tracked owing)
    {actions : List Action} (hcalculate : ∀ action ∈ actions, action.isCalculate = false) :
    (actions.foldl Hive.perform hive).Tracked (hive.owingFrom owing actions) := by
  induction actions generalizing hive owing with
  | nil => exact htracked
  | cons action rest ih =>
      exact ih (htracked.perform (hcalculate action List.mem_cons_self))
        fun other hother => hcalculate other (List.mem_cons_of_mem action hother)

theorem tracked_after (config : HiveConfig) {actions : List Action}
    (hcalculate : ∀ action ∈ actions, action.isCalculate = false) :
    (after config actions).Tracked (owing config actions) :=
  (tracked_ofConfig config).foldl hcalculate

/-! Passes that succeed. -/

section Layout

variable {config : HiveConfig} {actions : List Action} {stats : LayoutStats}

theorem after_snoc (config : HiveConfig) (actions : List Action) (action : Action) :
    after config (actions ++ [action]) = (after config actions).perform action := by
  rw [after, List.foldl_append]
  rfl

theorem currentUpToOrder_of_not_owing
    (hcalculate : ∀ action ∈ actions, action.isCalculate = false)
    (hlayout : (after config actions).layout.1 = .ok stats) {id : CoordinateId}
    (hid : id ∈ (after config actions).registry)
    (howing : ¬ owing config (actions ++ [.layout]) id) :
    (after config actions).layout.2.tree.CurrentUpToOrder id := by
  have hsound := sound_after config actions
  have htracked : (after config actions).layout.2.Tracked
      (owing config (actions ++ [.layout])) := by
    have hlonger : ∀ action ∈ actions ++ [.layout], action.isCalculate = false := by
      intro action haction
      rcases List.mem_append.mp haction with hmem | hlast
      · exact hcalculate action hmem
      · rw [List.mem_singleton.mp hlast]
        rfl
    have hsnoc := tracked_after config hlonger
    rwa [after_snoc] at hsnoc
  obtain ⟨wired, last, log, hfinishes⟩ := exists_finishes hsound hlayout
  have hpending := hfinishes.pending
  have hnone : ∀ other, other ∉ CoordinateSet.empty := fun _ => CoordinateSet.not_mem_empty
  refine (htracked.current id ?_ ?_ ?_ howing).upToOrder htracked.sound.tree
  · rw [registry_layout hsound]
    exact hid
  · rw [hpending]
    exact hnone id
  · rw [hpending]
    exact hnone id

end Layout

/-- After any session without a calculation of its own, a pass that succeeds leaves current exactly
what it calculates and what was current before. Up to the order of children this is all that no
earlier pass left owing. -/
theorem layout_current_iff (config : HiveConfig) {actions : List Action}
    (hcalculate : ∀ action ∈ actions, action.isCalculate = false) {stats : LayoutStats}
    (hlayout : (after config actions).layout.1 = .ok stats) {id : CoordinateId}
    (hid : id ∈ (after config actions).registry) :
    ((after config actions).layout.2.tree.Current id ↔
        id ∈ (after config actions).recalculated ∨ (after config actions).tree.Current id) ∧
      (¬ owing config (actions ++ [.layout]) id →
        (after config actions).layout.2.tree.CurrentUpToOrder id) :=
  ⟨current_layout_iff (sound_after config actions) hlayout hid,
    currentUpToOrder_of_not_owing hcalculate hlayout hid⟩

/-- A region widens, but the pass that passes this on fails at a sibling that is not there. -/
def relapse : List Action :=
  [.edit (.make "zero" (.constant 0.0)), .edit (.make "ten" (.constant 10.0)),
    .edit (.make "width" (.constant 10.0)),
    .newRegion ⟨some ("zero", "width"), some ("zero", "ten"), none, none, []⟩,
    .edit (.make "span" (.ancestorSpan 1 1.0)),
    .newRegion ⟨some ("zero", "span"), some ("zero", "ten"), some ⟨1⟩, none, []⟩,
    .layout,
    .edit (.setConstant "width" 40.0),
    .edit (.make "own" (.ancestorSpan 1 1.0)),
    .edit (.make "peer" (.sibling .beta true 0.0)),
    .edit (.make "sum" (.binary .add "own" "peer")),
    .newRegion ⟨some ("zero", "sum"), some ("zero", "ten"), some ⟨1⟩, some 0, []⟩,
    .layout,
    .edit (.make "five" (.constant 5.0)),
    .edit (.setRecipe ⟨⟨3⟩, .x, .beta⟩ "five")]

/-- The next pass succeeds and takes the widened region for unchanged. What spans it stays as it
was, for it is not calculated. -/
theorem relapse_stale :
    (∀ action ∈ relapse, action.isCalculate = false) ∧
      (after .standard relapse).layout.1 = .ok ⟨5, 5, 1, 4⟩ ∧
      ⟨⟨2⟩, .x, .beta⟩ ∈ (after .standard relapse).registry ∧
      ⟨⟨2⟩, .x, .beta⟩ ∉ (after .standard relapse).recalculated ∧
      ¬ (after .standard relapse).layout.2.tree.Current ⟨⟨2⟩, .x, .beta⟩ := by
  have hvalues : (after .standard relapse).layout.2.tree.relative ⟨⟨2⟩, .x, .beta⟩ = some 10.0 ∧
      (after .standard relapse).layout.2.tree.evaluate ⟨⟨2⟩, .x, .beta⟩ = .ok (some 40.0) ∧
      ¬ Agrees (some 10.0) (some 40.0) := by
    decide +kernel
  have hpass : (∀ action ∈ relapse, action.isCalculate = false) ∧
      (after .standard relapse).layout.1 = .ok ⟨5, 5, 1, 4⟩ ∧
      ⟨⟨2⟩, .x, .beta⟩ ∈ (after .standard relapse).registry ∧
      ⟨⟨2⟩, .x, .beta⟩ ∉ (after .standard relapse).recalculated := by
    decide +kernel
  obtain ⟨hrelative, hvalue, hdiffers⟩ := hvalues
  obtain ⟨hactions, hlayout, hregistered, hpassed⟩ := hpass
  refine ⟨hactions, hlayout, hregistered, hpassed, ?_⟩
  rintro ⟨value, hfound, hagrees⟩
  rw [hvalue] at hfound
  rw [hrelative, ← Except.ok.inj hfound] at hagrees
  exact hdiffers hagrees

theorem relapse_current_iff :
    (after .standard relapse).layout.1 = .ok ⟨5, 5, 1, 4⟩ ∧
      ⟨⟨1⟩, .x, .beta⟩ ∈ (after .standard relapse).registry ∧
      (((after .standard relapse).layout.2.tree.Current ⟨⟨1⟩, .x, .beta⟩ ↔
          ⟨⟨1⟩, .x, .beta⟩ ∈ (after .standard relapse).recalculated ∨
            (after .standard relapse).tree.Current ⟨⟨1⟩, .x, .beta⟩) ∧
        (¬ owing .standard (relapse ++ [.layout]) ⟨⟨1⟩, .x, .beta⟩ →
          (after .standard relapse).layout.2.tree.CurrentUpToOrder ⟨⟨1⟩, .x, .beta⟩)) := by
  have hpass : (∀ action ∈ relapse, action.isCalculate = false) ∧
      (after .standard relapse).layout.1 = .ok ⟨5, 5, 1, 4⟩ ∧
      ⟨⟨1⟩, .x, .beta⟩ ∈ (after .standard relapse).registry := by
    decide +kernel
  obtain ⟨hactions, hlayout, hregistered⟩ := hpass
  exact ⟨hlayout, hregistered, layout_current_iff .standard hactions hlayout hregistered⟩

end RegionLayout.Hive
