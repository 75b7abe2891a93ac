import RegionLayout.Proofs.Hive.Fixpoint

/-!
The graph and the recipes. The edges into a coordinate are what its recipe reads unless it waits to
be rewired, however the session went; once a pass succeeds no coordinate waits.
-/

namespace RegionLayout.Hive

/-- A coordinate has the edges that its recipe asks for. -/
def Wired (hive : Hive) (id : CoordinateId) : Prop :=
  ∀ prerequisite, prerequisite ∈ hive.graph.prerequisites id ↔
    prerequisite ∈ hive.tree.prerequisites id

variable {hive : Hive}

theorem Sound.wired_of_rests (hsound : hive.Sound) {id : CoordinateId} (hid : id ∈ hive.registry)
    (hfresh : id ∉ hive.pending.fresh) (hrewired : id ∉ hive.pending.rewired) : hive.Wired id := by
  intro prerequisite
  rw [Graph.mem_prerequisites_iff hsound.graph]
  exact hsound.wired id hid hfresh hrewired prerequisite

theorem Sound.edge_iff_reads (hsound : hive.Sound) (hpending : hive.pending = .empty)
    (prerequisite dependent : CoordinateId) :
    hive.graph.Edge prerequisite dependent ↔ hive.Reads prerequisite dependent := by
  have hworklist : hive.worklist = [] := by
    rw [Hive.worklist, hpending]
    rfl
  rw [← hsound.rewired_worklist_iff, hworklist, rewired_nil]

/-- The edges of a hive are what the recipes of registered coordinates read, and none leads back. -/
structure Synchronous (hive : Hive) : Prop where
  wired : ∀ id ∈ hive.registry, hive.Wired id
  edge_iff : ∀ prerequisite dependent,
    hive.graph.Edge prerequisite dependent ↔ hive.Reads prerequisite dependent
  acyclic : Acyclic hive.Reads

theorem Sound.synchronous (hsound : hive.Sound) (hpending : hive.pending = .empty) :
    hive.Synchronous where
  wired id hid := by
    apply hsound.wired_of_rests hid
    · exact hpending ▸ CoordinateSet.not_mem_empty
    · exact hpending ▸ CoordinateSet.not_mem_empty
  edge_iff := hsound.edge_iff_reads hpending
  acyclic := (Acyclic.congr (hsound.edge_iff_reads hpending)).mp hsound.graph.edge_acyclic

/-- After any session, a coordinate that does not wait has the edges its recipe asks for; after a
pass that succeeds, every coordinate has. -/
theorem recipes_wired (config : HiveConfig) (actions : List Action) :
    (∀ id ∈ (after config actions).registry, id ∉ (after config actions).pending.fresh →
        id ∉ (after config actions).pending.rewired → (after config actions).Wired id) ∧
      ∀ stats, (after config actions).layout.1 = .ok stats →
        (after config actions).layout.2.Synchronous := by
  have hsound := sound_after config actions
  refine ⟨fun id hid hfresh hrewired => hsound.wired_of_rests hid hfresh hrewired, ?_⟩
  intro stats hlayout
  obtain ⟨_, _, _, hfinishes⟩ := exists_finishes hsound hlayout
  exact (hsound.perform .layout).synchronous hfinishes.pending

/-- In the relapse the second region rests while the third waits, and then the pass succeeds. -/
theorem relapse_wired :
    (⟨⟨2⟩, .x, .beta⟩ ∈ (after .standard relapse).registry ∧
      (after .standard relapse).Wired ⟨⟨2⟩, .x, .beta⟩) ∧
      (after .standard relapse).layout.2.Synchronous := by
  have hrests : ⟨⟨2⟩, .x, .beta⟩ ∈ (after .standard relapse).registry ∧
      ⟨⟨2⟩, .x, .beta⟩ ∉ (after .standard relapse).pending.fresh ∧
      ⟨⟨2⟩, .x, .beta⟩ ∉ (after .standard relapse).pending.rewired ∧
      (after .standard relapse).layout.1 = .ok ⟨5, 5, 1, 4⟩ := by
    decide +kernel
  obtain ⟨hid, hfresh, hrewired, hlayout⟩ := hrests
  obtain ⟨hwired, hsynchronous⟩ := recipes_wired .standard relapse
  exact ⟨⟨hid, hwired _ hid hfresh hrewired⟩, hsynchronous _ hlayout⟩

end RegionLayout.Hive
