import RegionLayout.Proofs.Hive.Fixpoint

/-!
Smooth sessions. Where no pass fails midway nothing is left owing, and each pass that succeeds is a
fixpoint up to the order in which children are listed: they may be listed anew without a notice, and
the greatest of values that are equal and yet differ is whichever comes last.
-/

namespace RegionLayout.Hive

variable {hive : Hive}

/-- An action that leaves nothing owing: passes may be refused, but none fails midway. -/
def smooth (hive : Hive) : Action → Bool
  | .calculate _ => false
  | .layout =>
    match hive.layout.1 with
    | .ok _ => true
    | .error failure => failure.isCycle
  | _ => true

def runsSmoothly : Hive → List Action → Bool
  | _, [] => true
  | hive, action :: rest => hive.smooth action && runsSmoothly (hive.perform action) rest

theorem owes_of_smooth (hsound : hive.Sound) {owing : CoordinateId → Prop} {action : Action}
    (hsmooth : hive.smooth action = true) {id : CoordinateId} (howes : hive.owes owing action id) :
    owing id := by
  cases action with
  | layout =>
      obtain ⟨hregistered, hid, howing | ⟨prerequisite, hread, hne⟩⟩ := howes
      · exact howing
      · have hends := ends_layout hsound
        simp only [smooth] at hsmooth
        generalize hresult : hive.layout = result at hends hsmooth
        cases hends with
        | refused cause hworklist hrefused =>
            refine absurd ?_ hne
            rw [hresult]
            exact congrArg (RegionTree.relative · prerequisite) hrefused.tree
        | failed hrewires hvisits horderly hdue hfails =>
            obtain ⟨_, htree⟩ := (revalues_of_visits hrewires hvisits).keeps hsound.tree
            have hcycle := Pass.isCycle_of_calculate htree hfails
            exact absurd (hcycle.symm.trans hsmooth) Bool.false_ne_true
        | finished hrewires hvisits horderly hcomplete =>
            have hfinishes := finishes_of_layout hsound hrewires hvisits horderly hcomplete hresult
            obtain ⟨_, _, hunmoved⟩ := (hfinishes.settles hsound hregistered).resolve_left hid
            exact absurd (hunmoved prerequisite hread) hne
  | _ => exact howes

theorem not_owingFrom_of_smooth (hsound : hive.Sound) {actions : List Action}
    {owing : CoordinateId → Prop} (hnone : ∀ id, ¬ owing id)
    (hsmooth : hive.runsSmoothly actions = true) (id : CoordinateId) :
    ¬ hive.owingFrom owing actions id := by
  induction actions generalizing hive owing with
  | nil => exact hnone id
  | cons action rest ih =>
      rw [runsSmoothly, Bool.and_eq_true] at hsmooth
      exact ih (hsound.perform action) (fun other howes =>
        hnone other (owes_of_smooth hsound hsmooth.1 howes)) hsmooth.2

theorem runsSmoothly_snoc {actions : List Action} {action : Action} :
    hive.runsSmoothly (actions ++ [action]) =
      (hive.runsSmoothly actions && (actions.foldl Hive.perform hive).smooth action) := by
  induction actions generalizing hive with
  | nil => simp [runsSmoothly]
  | cons first rest ih => simp only [List.cons_append, runsSmoothly, ih, List.foldl_cons,
      Bool.and_assoc]

theorem isCalculate_of_smooth {actions : List Action} (hsmooth : hive.runsSmoothly actions = true) :
    ∀ action ∈ actions, action.isCalculate = false := by
  induction actions generalizing hive with
  | nil => exact fun _ haction => absurd haction List.not_mem_nil
  | cons first rest ih =>
      rw [runsSmoothly, Bool.and_eq_true] at hsmooth
      intro action haction
      rcases List.mem_cons.mp haction with rfl | hrest
      · cases action with
        | calculate id => exact absurd hsmooth.1 Bool.false_ne_true
        | _ => rfl
      · exact ih hsmooth.2 action hrest

/-- After a smooth session, a pass that succeeds leaves every registered coordinate current, up to
the order of children. -/
theorem layout_current (config : HiveConfig) {actions : List Action}
    (hsmooth : (ofConfig config).runsSmoothly actions = true) {stats : LayoutStats}
    (hlayout : (after config actions).layout.1 = .ok stats) {id : CoordinateId}
    (hid : id ∈ (after config actions).registry) :
    (after config actions).layout.2.tree.CurrentUpToOrder id := by
  refine currentUpToOrder_of_not_owing (isCalculate_of_smooth hsmooth) hlayout hid ?_
  refine not_owingFrom_of_smooth (sound_ofConfig config) (fun _ hfalse => hfalse) ?_ id
  rw [runsSmoothly_snoc, hsmooth, Bool.true_and]
  show (after config actions).smooth .layout = true
  rw [smooth, hlayout]

/-- A region takes the inverse of a width that is the greatest of two zeros, of which one is
negative; their regions change places while the width is set. -/
def zeros : List Action :=
  [.edit (.make "zero" (.constant 0.0)), .edit (.make "unit" (.constant 1.0)),
    .edit (.make "widest" .childrenMax),
    .edit (.make "one" (.constant 1.0)),
    .edit (.make "inverse" (.binary .divide "one" "widest")),
    .newRegion ⟨some ("zero", "inverse"), some ("zero", "unit"), none, none, []⟩,
    .newRegion ⟨some ("zero", "widest"), some ("zero", "unit"), none, none, []⟩,
    .newRegion ⟨some ("zero", "zero"), some ("zero", "unit"), some ⟨2⟩, none, []⟩,
    .edit (.make "minus" (.constant (-0.0))),
    .newRegion ⟨some ("zero", "minus"), some ("zero", "unit"), some ⟨2⟩, none, []⟩,
    .layout,
    .edit (.make "five" (.constant 5.0)),
    .edit (.setRecipe ⟨⟨2⟩, .x, .beta⟩ "five"),
    .edit (.remove ⟨2⟩ ⟨3⟩), .edit (.append ⟨2⟩ ⟨3⟩),
    .edit (.setRecipe ⟨⟨2⟩, .x, .beta⟩ "widest")]

theorem zeros_current :
    (ofConfig .standard).runsSmoothly zeros = true ∧
      (after .standard zeros).layout.1 = .ok ⟨1, 1, 1, 1⟩ ∧
      ⟨⟨1⟩, .x, .beta⟩ ∈ (after .standard zeros).registry ∧
      (after .standard zeros).layout.2.tree.CurrentUpToOrder ⟨⟨1⟩, .x, .beta⟩ := by
  have hpass : (ofConfig .standard).runsSmoothly zeros = true ∧
      (after .standard zeros).layout.1 = .ok ⟨1, 1, 1, 1⟩ ∧
      ⟨⟨1⟩, .x, .beta⟩ ∈ (after .standard zeros).registry := by
    decide +kernel
  obtain ⟨hsmooth, hlayout, hregistered⟩ := hpass
  exact ⟨hsmooth, hlayout, hregistered, layout_current .standard hsmooth hlayout hregistered⟩

/-- The stored inverse is that of the negative zero, which was the last of the children; its recipe
now comes to the inverse of the other. -/
theorem zeros_not_current :
    (ofConfig .standard).runsSmoothly zeros = true ∧
      (after .standard zeros).layout.1 = .ok ⟨1, 1, 1, 1⟩ ∧
      ⟨⟨1⟩, .x, .beta⟩ ∈ (after .standard zeros).registry ∧
      (after .standard zeros).layout.2.tree.relative ⟨⟨1⟩, .x, .beta⟩ = some (-1.0 / 0.0) ∧
      (after .standard zeros).layout.2.tree.evaluate ⟨⟨1⟩, .x, .beta⟩ =
        .ok (some (1.0 / 0.0)) ∧
      ¬ (after .standard zeros).layout.2.tree.Current ⟨⟨1⟩, .x, .beta⟩ := by
  have hpass : (ofConfig .standard).runsSmoothly zeros = true ∧
      (after .standard zeros).layout.1 = .ok ⟨1, 1, 1, 1⟩ ∧
      ⟨⟨1⟩, .x, .beta⟩ ∈ (after .standard zeros).registry ∧
      (after .standard zeros).layout.2.tree.relative ⟨⟨1⟩, .x, .beta⟩ = some (-1.0 / 0.0) ∧
      (after .standard zeros).layout.2.tree.evaluate ⟨⟨1⟩, .x, .beta⟩ =
        .ok (some (1.0 / 0.0)) ∧
      ¬ Agrees (some (-1.0 / 0.0)) (some (1.0 / 0.0)) := by
    decide +kernel
  obtain ⟨hsmooth, hlayout, hregistered, hrelative, hvalue, hdiffers⟩ := hpass
  refine ⟨hsmooth, hlayout, hregistered, hrelative, hvalue, ?_⟩
  rintro ⟨value, hfound, hagrees⟩
  rw [hvalue] at hfound
  rw [hrelative, ← Except.ok.inj hfound] at hagrees
  exact hdiffers hagrees

end RegionLayout.Hive
