import RegionLayout.Proofs.Hive.Refusal
import RegionLayout.Proofs.Hive.Smooth
import RegionLayout.Proofs.Tree.Presence

/-!
Forced passes. A pass that starts from what waits and one that starts from every coordinate succeed
alike, and leave the same coordinates without a value. They leave the same values unless a recipe
lists children anew without a notice: the forced pass takes up the new order, the other one may not.
-/

namespace RegionLayout.Hive

open Relation
open RegionTree (settled)

variable {hive : Hive}

/-! The same hive, forced or not. -/

def withFull (hive : Hive) (full : Bool) : Hive :=
  { hive with config := { hive.config with forceFullLayout := full } }

/-- The next pass, from what waits. -/
def incremental (hive : Hive) : Except LayoutError LayoutStats × Hive :=
  (hive.withFull false).layout

/-- The next pass, from every registered coordinate. -/
def forced (hive : Hive) : Except LayoutError LayoutStats × Hive :=
  (hive.withFull true).layout

theorem Sound.withFull (hsound : hive.Sound) (full : Bool) : (hive.withFull full).Sound :=
  { hsound with }

theorem Tracked.withFull {owing : CoordinateId → Prop} (htracked : hive.Tracked owing)
    (full : Bool) : (hive.withFull full).Tracked owing where
  sound := htracked.sound.withFull full
  current := htracked.current

/-! Passes that fail midway. -/

/-- A pass fails at a coordinate once it is through with all that this depends on. -/
structure FailsAt (hive : Hive) (id : CoordinateId) : Prop where
  registered : id ∈ hive.registry
  fails : ∃ failure, hive.layout.2.tree.evaluate id = .error failure
  settles : ∀ source ∈ hive.registry, TransGen hive.Reads source id → hive.Settles source

theorem exists_failsAt (hsound : hive.Sound) {failure : LayoutError}
    (hlayout : hive.layout.1 = .error failure) (hcycle : ∀ cause, failure ≠ .cycle cause) :
    ∃ id, hive.FailsAt id := by
  have hends := ends_layout hsound
  generalize hresult : hive.layout = result at hends hlayout
  cases hends with
  | refused cause hworklist hrefused =>
      exact absurd (Except.error.inj hlayout).symm (hcycle cause)
  | @failed wired last final log id failure hrewires hvisits horderly hdue hfails =>
      have hrecalculates := recalculates_of_failed hsound hrewires hvisits horderly hfails hresult
      obtain ⟨hvalue, hrevalues, hrelative, _⟩ := Pass.calculate_error hfails
      obtain ⟨_, htree⟩ := (revalues_of_visits hrewires hvisits).keeps hsound.tree
      refine ⟨id, ((hrecalculates.wanted_iff hrewires hsound).mp hdue.wanted).1, ⟨failure, ?_⟩, ?_⟩
      · rw [hresult]
        exact (hrevalues.evaluate_eq htree fun prerequisite _ => hrelative prerequisite).trans
          hvalue
      · intro source hsource hpath
        exact hrecalculates.settles_of_wanted hrewires hsound hsource
          (hdue.reads source (hsound.path_of_reads hrewires hpath))
  | finished hrewires hvisits horderly hcomplete => contradiction

theorem Tracked.upToOrder (htracked : hive.Tracked fun _ => False) {id : CoordinateId}
    (hid : id ∈ hive.registry) (hsettles : hive.Settles id) :
    hive.layout.2.tree.CurrentUpToOrder id :=
  (htracked.currentInSomeOrder hid hsettles (.inr not_false)).upToOrder
    (htracked.sound.perform .layout).tree

/-! Two passes over the same hive. -/

/-- A tree in which a pass moved values of registered coordinates. -/
structure Swept (hive : Hive) (tree : RegionTree) : Prop where
  revalues : RegionTree.Revalues hive.tree tree
  outside : ∀ id, id ∉ hive.registry → tree.relative id = hive.tree.relative id

theorem swept_layout (hsound : hive.Sound) (full : Bool) :
    hive.Swept (hive.withFull full).layout.2.tree := by
  obtain ⟨start, last, log, hrecalculates⟩ := exists_recalculates (hsound.withFull full)
  refine ⟨hrecalculates.revalues_layout, fun id hid => ?_⟩
  refine hrecalculates.relative_of_not_mem fun hcalculated => hid ?_
  exact hrecalculates.registered id (hrecalculates.recalculated ▸ hcalculated)

/-- Induction along what is read, from what holds of all that a coordinate depends on. -/
theorem reads_induction (hacyclic : Acyclic hive.Reads) {holds motive : CoordinateId → Prop}
    (houtside : ∀ id ∉ hive.registry, motive id)
    (hstep : ∀ id ∈ hive.registry, holds id →
      (∀ prerequisite ∈ hive.tree.prerequisites id, motive prerequisite) → motive id)
    {id : CoordinateId} (hupstream : ∀ source ∈ hive.registry,
      ReflTransGen hive.Reads source id → holds source) : motive id := by
  refine hacyclic.induction (motive := fun id =>
    (∀ source ∈ hive.registry, ReflTransGen hive.Reads source id → holds source) → motive id)
    (fun _ _ hreads => hreads.1) (fun id ih hupstream => ?_) id hupstream
  by_cases hid : id ∈ hive.registry
  · refine hstep id hid (hupstream id hid .refl) fun prerequisite hread => ?_
    have hreads : hive.Reads prerequisite id := ⟨hid, hread⟩
    exact ih prerequisite hreads fun source hsource hpath =>
      hupstream source hsource (hpath.tail hreads)
  · exact houtside id hid

section Swept

variable {first second : RegionTree} (hfirst : hive.Swept first) (hsecond : hive.Swept second)
  (hsound : hive.Sound) (hacyclic : Acyclic hive.Reads) {id : CoordinateId}

include hfirst hsecond

theorem Swept.outside_eq (hid : id ∉ hive.registry) : first.relative id = second.relative id := by
  rw [hfirst.outside id hid, hsecond.outside id hid]

include hsound hacyclic

theorem Swept.isSome_eq (hfounded : ∀ source ∈ hive.registry, ReflTransGen hive.Reads source id →
      first.Founded source ∧ second.Founded source) :
    (first.relative id).isSome = (second.relative id).isSome := by
  refine reads_induction hacyclic (motive := fun id =>
    (first.relative id).isSome = (second.relative id).isSome) (fun id hid => ?_)
    (fun id _ hboth ih => ?_) hfounded
  · rw [hfirst.outside_eq hsecond hid]
  · exact hboth.1.isSome_eq hboth.2
      (hfirst.revalues.evaluate_samePresence hsecond.revalues hsound.tree ih)

theorem Swept.evaluate_samePresence (hid : id ∈ hive.registry)
    (hfounded : ∀ source ∈ hive.registry, TransGen hive.Reads source id →
      first.Founded source ∧ second.Founded source) :
    SamePresence (first.evaluate id) (second.evaluate id) := by
  refine hfirst.revalues.evaluate_samePresence hsecond.revalues hsound.tree
    fun prerequisite hread => ?_
  refine hfirst.isSome_eq hsecond hsound hacyclic fun source hsource hpath => ?_
  exact hfounded source hsource (.tail' hpath ⟨hid, hread⟩)

end Swept

theorem Tracked.upToOrder_of_ok (htracked : hive.Tracked fun _ => False) {full : Bool}
    {stats : LayoutStats} (hlayout : (hive.withFull full).layout.1 = .ok stats) {id : CoordinateId}
    (hid : id ∈ hive.registry) : (hive.withFull full).layout.2.tree.CurrentUpToOrder id :=
  (htracked.withFull full).upToOrder hid (settles_of_ok (htracked.sound.withFull full) hlayout hid)

/-- If one pass goes through, the other is neither refused nor does it fail. -/
theorem Tracked.exists_ok (htracked : hive.Tracked fun _ => False) {full other : Bool}
    {stats : LayoutStats} (hlayout : (hive.withFull full).layout.1 = .ok stats) :
    ∃ stats, (hive.withFull other).layout.1 = .ok stats := by
  have hsound := htracked.sound
  cases hother : (hive.withFull other).layout.1 with
  | ok stats => exact ⟨stats, rfl⟩
  | error failure =>
      by_cases hcycle : ∃ cause, failure = .cycle cause
      · obtain ⟨cause, rfl⟩ := hcycle
        have hmixture := (hsound.withFull other).refuses_iff.mp ⟨cause, hother⟩
        obtain ⟨_, hrefused⟩ := (hsound.withFull full).refuses_iff.mpr hmixture
        rw [hlayout] at hrefused
        contradiction
      · obtain ⟨id, hfails⟩ := exists_failsAt (hsound.withFull other) hother (not_exists.mp hcycle)
        obtain ⟨failure, hfailure⟩ := hfails.fails
        obtain ⟨_, _, _, hfinishes⟩ := exists_finishes (hsound.withFull full) hlayout
        have hfounded : ∀ source ∈ hive.registry,
            (hive.withFull full).layout.2.tree.Founded source := fun source hsource =>
          (htracked.upToOrder_of_ok hlayout hsource).founded
        have hpresence := (swept_layout hsound full).evaluate_samePresence
          (swept_layout hsound other) hsound (hfinishes.acyclic_reads (hsound.withFull full))
          hfails.registered fun source hsource hpath => ⟨hfounded source hsource,
            ((htracked.withFull other).upToOrder hsource
              (hfails.settles source hsource hpath)).founded⟩
        obtain ⟨value, hvalue, _⟩ := hfounded id hfails.registered
        obtain ⟨found, hfound, _⟩ := hpresence.exists_ok hvalue
        rw [hfailure] at hfound
        contradiction

theorem mem_recalculated_of_forced (hsound : hive.Sound) {stats : LayoutStats}
    (hforced : hive.forced.1 = .ok stats) {id : CoordinateId} (hid : id ∈ hive.registry) :
    id ∈ (hive.withFull true).recalculated := by
  have hforcedSound := hsound.withFull true
  obtain ⟨_, _, _, hfinishes⟩ := exists_finishes hforcedSound hforced
  exact (hfinishes.mem_recalculated_iff hforcedSound).mpr ⟨hid, .inl hid⟩

section Values

variable {stats stats' : LayoutStats} (hsound : hive.Sound)
  (hincremental : hive.incremental.1 = .ok stats) (hforced : hive.forced.1 = .ok stats')
  {id : CoordinateId}

include hsound hincremental hforced

theorem relative_forced_of_reads (hid : id ∈ hive.registry)
    (hcurrent : hive.incremental.2.tree.Current id)
    (hread : ∀ prerequisite ∈ hive.tree.prerequisites id,
      hive.incremental.2.tree.relative prerequisite = hive.forced.2.tree.relative prerequisite) :
    hive.incremental.2.tree.relative id = hive.forced.2.tree.relative id := by
  obtain ⟨_, _, _, hfinishes⟩ := exists_finishes (hsound.withFull false) hincremental
  obtain ⟨_, _, _, hfinishes'⟩ := exists_finishes (hsound.withFull true) hforced
  have hfirst : hive.Swept hive.incremental.2.tree := swept_layout hsound false
  have hsecond : hive.Swept hive.forced.2.tree := swept_layout hsound true
  have hsame : hive.incremental.2.tree.evaluate id = hive.forced.2.tree.evaluate id :=
    hfirst.revalues.evaluate_congr hsecond.revalues hsound.tree hread
  obtain ⟨value, hvalue, hstored⟩ : ∃ value, hive.forced.2.tree.evaluate id = .ok value ∧
      hive.forced.2.tree.relative id = settled (hive.tree.relative id) (.ok value) :=
    hfinishes'.stored (hsound.withFull true) (mem_recalculated_of_forced hsound hforced hid)
  rw [hstored]
  by_cases hcalculated : id ∈ (hive.withFull false).recalculated
  · obtain ⟨other, hother, hkept⟩ : ∃ other, hive.incremental.2.tree.evaluate id = .ok other ∧
        hive.incremental.2.tree.relative id = settled (hive.tree.relative id) (.ok other) :=
      hfinishes.stored (hsound.withFull false) hcalculated
    rw [hsame, hvalue] at hother
    rw [hkept, Except.ok.inj hother]
  · obtain ⟨own, hown, hagrees⟩ := hcurrent
    have hkept : hive.incremental.2.tree.relative id = hive.tree.relative id :=
      hfinishes.relative_of_not_mem hcalculated
    rw [hsame, hvalue] at hown
    rw [hkept, ← Except.ok.inj hown] at hagrees
    rw [hkept, settled_of_agrees hagrees]

theorem relative_forced (hcurrent : ∀ source ∈ hive.registry,
      ReflTransGen hive.Reads source id → hive.incremental.2.tree.Current source) :
    hive.incremental.2.tree.relative id = hive.forced.2.tree.relative id := by
  obtain ⟨_, _, _, hfinishes⟩ := exists_finishes (hsound.withFull false) hincremental
  have hacyclic : Acyclic hive.Reads := hfinishes.acyclic_reads (hsound.withFull false)
  refine reads_induction hacyclic (motive := fun id =>
    hive.incremental.2.tree.relative id = hive.forced.2.tree.relative id) (fun id hid => ?_)
    (fun id hid hown ih => ?_) hcurrent
  · exact (swept_layout hsound false).outside_eq (swept_layout hsound true) hid
  · exact relative_forced_of_reads hsound hincremental hforced hid hown ih

end Values

/-- What the forced pass leaves everywhere the same was current already. -/
theorem current_of_relative_forced (hsound : hive.Sound) {stats : LayoutStats}
    (hforced : hive.forced.1 = .ok stats)
    (hsame : ∀ id, hive.incremental.2.tree.relative id = hive.forced.2.tree.relative id)
    {id : CoordinateId} (hid : id ∈ hive.registry) : hive.incremental.2.tree.Current id := by
  obtain ⟨_, _, _, hfinishes⟩ := exists_finishes (hsound.withFull true) hforced
  obtain ⟨value, hvalue, hagrees⟩ : hive.forced.2.tree.Current id :=
    hfinishes.current (hsound.withFull true) (mem_recalculated_of_forced hsound hforced hid)
  have hfirst : hive.Swept hive.incremental.2.tree := swept_layout hsound false
  have hsecond : hive.Swept hive.forced.2.tree := swept_layout hsound true
  refine ⟨value, ?_, hsame id ▸ hagrees⟩
  rw [hfirst.revalues.evaluate_congr hsecond.revalues hsound.tree fun other _ => hsame other]
  exact hvalue

/-! The two passes compared. -/

/-- What the incremental pass and the forced pass over one hive have in common. -/
structure MatchesForced (hive : Hive) : Prop where
  succeeds_iff : (∃ stats, hive.incremental.1 = .ok stats) ↔ ∃ stats, hive.forced.1 = .ok stats
  present : ∀ stats, hive.incremental.1 = .ok stats → ∀ id,
    (hive.incremental.2.tree.relative id).isSome = (hive.forced.2.tree.relative id).isSome
  /-- The order of children does not decide what the coordinate depends on. -/
  identical : ∀ stats, hive.incremental.1 = .ok stats → ∀ id,
    (∀ source ∈ hive.registry, ReflTransGen hive.Reads source id →
      hive.incremental.2.tree.UnmixedBelow source) →
    hive.incremental.2.tree.relative id = hive.forced.2.tree.relative id
  identical_iff : ∀ stats, hive.incremental.1 = .ok stats →
    ((∀ id, hive.incremental.2.tree.relative id = hive.forced.2.tree.relative id) ↔
      ∀ id ∈ hive.registry, hive.incremental.2.tree.Current id)

theorem Tracked.matchesForced (htracked : hive.Tracked fun _ => False) : hive.MatchesForced := by
  have hsound := htracked.sound
  have hboth : ∀ {stats}, hive.incremental.1 = .ok stats → ∃ stats', hive.forced.1 = .ok stats' :=
    htracked.exists_ok
  refine ⟨⟨fun ⟨_, hincremental⟩ => hboth hincremental, fun ⟨_, hforced⟩ =>
    htracked.exists_ok hforced⟩, ?_, ?_, ?_⟩
  · intro stats hincremental id
    obtain ⟨stats', hforced⟩ := hboth hincremental
    obtain ⟨_, _, _, hfinishes⟩ := exists_finishes (hsound.withFull false) hincremental
    refine (swept_layout hsound false).isSome_eq (swept_layout hsound true) hsound
      (hfinishes.acyclic_reads (hsound.withFull false)) fun source hsource _ => ?_
    exact ⟨(htracked.upToOrder_of_ok hincremental hsource).founded,
      (htracked.upToOrder_of_ok hforced hsource).founded⟩
  · intro stats hincremental id hunmixed
    obtain ⟨stats', hforced⟩ := hboth hincremental
    exact relative_forced hsound hincremental hforced fun source hsource hpath =>
      (htracked.upToOrder_of_ok hincremental hsource).current (hunmixed source hsource hpath)
  · intro stats hincremental
    obtain ⟨stats', hforced⟩ := hboth hincremental
    constructor
    · exact fun hsame id hid => current_of_relative_forced hsound hforced hsame hid
    · exact fun hall id => relative_forced hsound hincremental hforced fun source hsource _ =>
        hall source hsource

theorem tracked_of_smooth (config : HiveConfig) {actions : List Action}
    (hsmooth : (ofConfig config).runsSmoothly actions = true) :
    (after config actions).Tracked fun _ => False := by
  have htracked := tracked_after config (isCalculate_of_smooth hsmooth)
  refine ⟨htracked.sound, fun id hid hfresh hinvalidated _ => ?_⟩
  exact htracked.current id hid hfresh hinvalidated
    (not_owingFrom_of_smooth (sound_ofConfig config) (fun _ hfalse => hfalse) hsmooth id)

/-- After a smooth session, the next pass succeeds exactly if it succeeds when it is forced, and up
to the order of children it comes to the same. -/
theorem layout_matches_forced (config : HiveConfig) {actions : List Action}
    (hsmooth : (ofConfig config).runsSmoothly actions = true) :
    (after config actions).MatchesForced :=
  (tracked_of_smooth config hsmooth).matchesForced

theorem zeros_match_forced :
    (ofConfig .standard).runsSmoothly zeros = true ∧ (after .standard zeros).MatchesForced := by
  have hsmooth : (ofConfig .standard).runsSmoothly zeros = true := by decide +kernel
  exact ⟨hsmooth, layout_matches_forced .standard hsmooth⟩

/-- Both passes succeed. The incremental one leaves the inverse of the negative zero, and the forced
one takes up the new order of children, by which the other zero is the last. -/
theorem zeros_forced :
    (ofConfig .standard).runsSmoothly zeros = true ∧
      (after .standard zeros).incremental.1 = .ok ⟨1, 1, 1, 1⟩ ∧
      (after .standard zeros).forced.1 = .ok ⟨20, 20, 19, 1⟩ ∧
      (after .standard zeros).incremental.2.tree.relative ⟨⟨1⟩, .x, .beta⟩ =
        some (-1.0 / 0.0) ∧
      (after .standard zeros).forced.2.tree.relative ⟨⟨1⟩, .x, .beta⟩ = some (1.0 / 0.0) ∧
      (after .standard zeros).incremental.2.tree.relative ⟨⟨1⟩, .x, .beta⟩ ≠
        (after .standard zeros).forced.2.tree.relative ⟨⟨1⟩, .x, .beta⟩ := by
  decide +kernel

end RegionLayout.Hive
