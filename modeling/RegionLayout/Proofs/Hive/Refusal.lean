import RegionLayout.Proofs.Hive.Passes

/-!
Refused passes. Recipes that read in a circle are refused, but so are others: a coordinate is
compared with the edges that those after it had before. The pass goes through exactly if none of
the mixtures it goes through is circular, and the last of these mixtures is what the recipes read.
-/

namespace RegionLayout.Hive

/-- The edges once the first `count` coordinates of the worklist are rewired. -/
def Mixture (hive : Hive) (count : Nat) : CoordinateId → CoordinateId → Prop :=
  Rewired hive.graph.Edge hive.tree.prerequisites (hive.worklist.take count)

variable {hive : Hive}

theorem Sound.mixture_iff (hsound : hive.Sound) {count : Nat}
    (hall : hive.worklist.length ≤ count) {prerequisite dependent : CoordinateId} :
    hive.Mixture count prerequisite dependent ↔ hive.Reads prerequisite dependent := by
  rw [Mixture, List.take_of_length_le hall]
  exact hsound.rewired_worklist_iff

theorem opening_rewired_iff (hsound : hive.Sound) (done : List CoordinateId)
    (prerequisite dependent : CoordinateId) :
    Rewired hive.opening.graph.Edge hive.opening.tree.prerequisites done prerequisite dependent ↔
      Rewired hive.graph.Edge hive.tree.prerequisites done prerequisite dependent := by
  obtain ⟨_, _, hedges⟩ := opening_spec hsound.graph
  rw [Rewired, Rewired, hedges]
  exact Iff.rfl

theorem Sound.refuses_iff (hsound : hive.Sound) :
    (∃ cause, hive.layout.1 = .error (.cycle cause)) ↔
      ∃ count, ¬ Acyclic (hive.Mixture count) := by
  have hsame : ∀ done,
      Acyclic (Rewired hive.opening.graph.Edge hive.opening.tree.prerequisites done) ↔
        Acyclic (Rewired hive.graph.Edge hive.tree.prerequisites done) :=
    fun done => Acyclic.congr (opening_rewired_iff hsound done)
  have hopen : ∀ {wired : Pass}, Pass.Rewires hive.opening wired hive.worklist →
      ¬ ∃ count, ¬ Acyclic (hive.Mixture count) := by
    rintro wired hrewires ⟨count, hcyclic⟩
    exact hcyclic ((hsame _).mp (hrewires.acyclic count))
  have hends := ends_layout hsound
  generalize hive.layout = result at hends
  cases hends with
  | @refused done rest id pass cause hworklist hrefused =>
      refine iff_of_true ⟨cause, rfl⟩ ⟨(done ++ [id]).length, fun hacyclic => hrefused.cyclic ?_⟩
      have htake : hive.worklist.take (done ++ [id]).length = done ++ [id] := by
        rw [hworklist, List.append_cons done id rest, List.take_left]
      rw [Mixture, htake] at hacyclic
      exact (hsame _).mpr hacyclic
  | failed hrewires hvisits horderly hdue hfails =>
      refine iff_of_false ?_ (hopen hrewires)
      rintro ⟨cause, hcause⟩
      obtain ⟨_, htree⟩ := (revalues_of_visits hrewires hvisits).keeps hsound.tree
      have hnone := Pass.isCycle_of_calculate htree hfails
      rw [Except.error.inj hcause] at hnone
      contradiction
  | finished hrewires hvisits horderly hcomplete =>
      exact iff_of_false (fun ⟨_, hcause⟩ => nomatch hcause) (hopen hrewires)

/-- After any session, the next pass is refused exactly if some mixture on its way is circular; the
last mixture is what the recipes read. -/
theorem layout_refuses_iff (config : HiveConfig) (actions : List Action) :
    ((∃ cause, (after config actions).layout.1 = .error (.cycle cause)) ↔
        ∃ count, ¬ Acyclic ((after config actions).Mixture count)) ∧
      ∀ count, (after config actions).worklist.length ≤ count → ∀ prerequisite dependent,
        (after config actions).Mixture count prerequisite dependent ↔
          (after config actions).Reads prerequisite dependent :=
  ⟨(sound_after config actions).refuses_iff,
    fun _ hall _ _ => (sound_after config actions).mixture_iff hall⟩

/-- A region spans its parent; then the parent takes the width of the region, which is set. -/
def turnabout : List Action :=
  [.edit (.make "near" (.constant 0.0)), .edit (.make "far" (.constant 10.0)),
    .newRegion ⟨some ("near", "far"), some ("near", "far"), none, none, []⟩,
    .edit (.make "span" (.ancestorSpan 1 1.0)),
    .newRegion ⟨some ("near", "span"), some ("near", "far"), some ⟨1⟩, none, []⟩,
    .layout,
    .edit (.make "widest" .childrenMax), .edit (.make "five" (.constant 5.0)),
    .edit (.setRecipe ⟨⟨1⟩, .x, .beta⟩ "widest"), .edit (.setRecipe ⟨⟨2⟩, .x, .beta⟩ "five")]

/-- The recipes are not circular, and yet every pass is refused. -/
theorem turnabout_refused :
    Acyclic (after .standard turnabout).Reads ∧
      (after .standard turnabout).layout.1 =
        .error (.cycle ⟨⟨⟨2⟩, .x, .beta⟩, ⟨⟨1⟩, .x, .beta⟩⟩) ∧
      (after .standard turnabout).layout.2.layout.1 =
        .error (.cycle ⟨⟨⟨2⟩, .x, .beta⟩, ⟨⟨1⟩, .x, .beta⟩⟩) := by
  have hrank : ∀ dependent ∈ (after .standard turnabout).registry,
      ∀ prerequisite ∈ (after .standard turnabout).tree.prerequisites dependent,
        (if prerequisite = ⟨⟨2⟩, .x, .beta⟩ then 0 else 1) <
          if dependent = ⟨⟨2⟩, .x, .beta⟩ then 0 else 1 := by decide +kernel
  refine ⟨.of_rank _ fun prerequisite dependent hreads =>
    hrank dependent hreads.1 prerequisite hreads.2, ?_, ?_⟩
  · decide +kernel
  · decide +kernel

end RegionLayout.Hive
