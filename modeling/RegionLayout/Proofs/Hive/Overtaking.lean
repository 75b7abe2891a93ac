import RegionLayout.Proofs.Hive.Smooth

/-!
Calculations outside of passes. One that moves a value outruns the coordinates that read it: the
next pass finds the value where it is, takes it for unmoved, and passes nothing on. They stay
outrun until a pass or a calculation of their own takes them up.
-/

namespace RegionLayout.Hive

variable {hive : Hive}

/-- Whether an action is not a pass that fails. -/
def succeeds (hive : Hive) : Action → Bool
  | .layout => hive.layout.1.isOk
  | _ => true

def allSucceed : Hive → List Action → Bool
  | _, [] => true
  | hive, action :: rest => hive.succeeds action && allSucceed (hive.perform action) rest

/-- What is outrun after an action, if `outrun` was before it. A calculation adds what reads a value
that it moves; a coordinate that is calculated, in a pass or outside of it, has caught up. -/
def outruns (hive : Hive) (outrun : CoordinateId → Prop) : Action → CoordinateId → Prop
  | .layout => fun id => outrun id ∧ id ∉ hive.recalculated
  | .calculate coordinate => fun id =>
    (outrun id ∧ ¬ (id = coordinate ∧ (hive.tree.evaluate coordinate).isOk = true)) ∨
      coordinate ∈ hive.tree.prerequisites id ∧
        (hive.perform (.calculate coordinate)).tree.relative coordinate ≠
          hive.tree.relative coordinate
  | _ => outrun

def outrunFrom : Hive → (CoordinateId → Prop) → List Action → CoordinateId → Prop
  | _, outrun, [] => outrun
  | hive, outrun, action :: rest =>
    outrunFrom (hive.perform action) (hive.outruns outrun action) rest

/-- What is outrun after a session. -/
def outrun (config : HiveConfig) (actions : List Action) : CoordinateId → Prop :=
  outrunFrom (ofConfig config) (fun _ => False) actions

theorem Tracked.mono {owing owing' : CoordinateId → Prop} (htracked : hive.Tracked owing)
    (howing : ∀ id, owing id → owing' id) : hive.Tracked owing' where
  sound := htracked.sound
  current id hid hfresh hinvalidated hpaid :=
    htracked.current id hid hfresh hinvalidated fun h => hpaid (howing id h)

/-- A calculation leaves everything current that neither reads a value it moves nor is calculated
itself, and what it calculates if that does not read itself. -/
theorem Tracked.calculate {outrun : CoordinateId → Prop} (htracked : hive.Tracked outrun)
    (coordinate : CoordinateId) :
    (hive.perform (.calculate coordinate)).Tracked
      (hive.outruns outrun (.calculate coordinate)) := by
  have hadvances : Advances hive (hive.perform (.calculate coordinate)) [] :=
    advances_calculate hive coordinate
  have hsound := htracked.sound.tree
  obtain ⟨_, hrevalues, hrelative⟩ := RegionTree.calculate_spec hive.tree coordinate
  refine ⟨htracked.sound.advances hadvances, fun id hid hfresh hinvalidated hcaught => ?_⟩
  rw [hadvances.registry, List.append_nil] at hid
  rw [hadvances.fresh, not_or] at hfresh
  rw [hadvances.invalidated, not_or] at hinvalidated
  change hive.tree.Revalues (hive.perform (.calculate coordinate)).tree at hrevalues
  change ∀ other, (hive.perform (.calculate coordinate)).tree.relative other = _ at hrelative
  rw [outruns, not_or, not_and, not_not, not_and, not_not] at hcaught
  obtain ⟨hbefore, hstill⟩ := hcaught
  have hunmoved : ∀ prerequisite ∈ hive.tree.prerequisites id,
      (hive.perform (.calculate coordinate)).tree.relative prerequisite =
        hive.tree.relative prerequisite := by
    intro prerequisite hread
    by_cases heq : prerequisite = coordinate
    · exact heq ▸ hstill (heq ▸ hread)
    · rw [hrelative, if_neg heq]
  -- Either its own value is stored now, or neither it nor anything that it reads moves.
  by_cases hcalculated : id = coordinate ∧ (hive.tree.evaluate coordinate).isOk = true
  · obtain ⟨rfl, hok⟩ := hcalculated
    cases hvalue : hive.tree.evaluate id with
    | error failure =>
        rw [hvalue] at hok
        contradiction
    | ok value =>
        refine RegionTree.Current.inSomeOrder ⟨value, ?_, ?_⟩
        · rw [hrevalues.evaluate_eq hsound hunmoved, hvalue]
        · rw [hrelative, if_pos rfl, hvalue]
          exact agrees_settled _ value
  · have hsame : (hive.perform (.calculate coordinate)).tree.relative id =
        hive.tree.relative id := by
      rw [hrelative]
      split
      next heq =>
        cases hvalue : hive.tree.evaluate coordinate with
        | error failure => rw [heq, RegionTree.settled]
        | ok value => exact absurd ⟨heq, by rw [hvalue]; rfl⟩ hcalculated
      next => rfl
    exact hrevalues.currentInSomeOrder hsound hunmoved hsame
      (htracked.current id hid hfresh.1 hinvalidated.1 fun h => hcalculated (hbefore h))

theorem Tracked.step {outrun : CoordinateId → Prop} (htracked : hive.Tracked outrun)
    {action : Action} (hsucceeds : hive.succeeds action = true) :
    (hive.perform action).Tracked (hive.outruns outrun action) := by
  cases action with
  | calculate coordinate => exact htracked.calculate coordinate
  | layout =>
      refine htracked.layout.mono fun id howes =>
        ⟨owes_of_smooth htracked.sound ?_ howes, howes.2.1⟩
      simp only [succeeds] at hsucceeds
      rw [smooth]
      split
      next => rfl
      next failure hfailure =>
        rw [hfailure] at hsucceeds
        contradiction
  | _ => exact htracked.perform rfl

theorem Tracked.foldl_step {outrun : CoordinateId → Prop} (htracked : hive.Tracked outrun)
    {actions : List Action} (hsucceed : hive.allSucceed actions = true) :
    (actions.foldl Hive.perform hive).Tracked (hive.outrunFrom outrun actions) := by
  induction actions generalizing hive outrun with
  | nil => exact htracked
  | cons action rest ih =>
      rw [allSucceed, Bool.and_eq_true] at hsucceed
      exact ih (htracked.step hsucceed.1) hsucceed.2

theorem outrunFrom_snoc {outrun : CoordinateId → Prop} {actions : List Action} {action : Action} :
    hive.outrunFrom outrun (actions ++ [action]) =
      (actions.foldl Hive.perform hive).outruns (hive.outrunFrom outrun actions) action := by
  induction actions generalizing hive outrun with
  | nil => rfl
  | cons first rest ih => exact ih

/-- After any session in which every pass succeeded, calculations outside of them included, another
pass that succeeds leaves current exactly what it calculates and what was current before. Up to the
order of children this is all that no calculation has outrun. -/
theorem layout_current_unless_outrun (config : HiveConfig) {actions : List Action}
    (hsucceed : (ofConfig config).allSucceed actions = true) {stats : LayoutStats}
    (hlayout : (after config actions).layout.1 = .ok stats) {id : CoordinateId}
    (hid : id ∈ (after config actions).registry) :
    ((after config actions).layout.2.tree.Current id ↔
        id ∈ (after config actions).recalculated ∨ (after config actions).tree.Current id) ∧
      (¬ outrun config (actions ++ [.layout]) id →
        (after config actions).layout.2.tree.CurrentUpToOrder id) := by
  have hsound := sound_after config actions
  refine ⟨current_layout_iff hsound hlayout hid, fun hcaught => ?_⟩
  have htracked : (after config actions).Tracked (outrun config actions) :=
    (tracked_ofConfig config).foldl_step hsucceed
  have hcaught' : id ∈ (after config actions).recalculated ∨ ¬ outrun config actions id := by
    rw [outrun, outrunFrom_snoc] at hcaught
    by_cases hcalculated : id ∈ (after config actions).recalculated
    · exact .inl hcalculated
    · exact .inr fun hbehind => hcaught ⟨hbehind, hcalculated⟩
  have hcurrent := htracked.currentInSomeOrder hid (settles_of_ok hsound hlayout hid) hcaught'
  exact hcurrent.upToOrder (hsound.perform .layout).tree

/-- A region widens, and its new width is calculated before the next pass. -/
def overtaken : List Action :=
  [.edit (.make "zero" (.constant 0.0)), .edit (.make "ten" (.constant 10.0)),
    .edit (.make "width" (.constant 10.0)),
    .newRegion ⟨some ("zero", "width"), some ("zero", "ten"), none, none, []⟩,
    .edit (.make "span" (.ancestorSpan 1 1.0)),
    .newRegion ⟨some ("zero", "span"), some ("zero", "ten"), some ⟨1⟩, none, []⟩,
    .layout,
    .edit (.setConstant "width" 40.0),
    .calculate ⟨⟨1⟩, .x, .beta⟩]

/-- The pass finds the width as it is and stops there. What spans it stays as it was. -/
theorem overtaken_stale :
    (ofConfig .standard).allSucceed overtaken = true ∧
      (after .standard overtaken).layout.1 = .ok ⟨1, 1, 1, 0⟩ ∧
      ⟨⟨1⟩, .x, .beta⟩ ∈ (after .standard overtaken).registry ∧
      ⟨⟨2⟩, .x, .beta⟩ ∈ (after .standard overtaken).registry ∧
      ⟨⟨2⟩, .x, .beta⟩ ∉ (after .standard overtaken).recalculated ∧
      ¬ (after .standard overtaken).layout.2.tree.Current ⟨⟨2⟩, .x, .beta⟩ := by
  have hvalues :
      (after .standard overtaken).layout.2.tree.relative ⟨⟨2⟩, .x, .beta⟩ = some 10.0 ∧
      (after .standard overtaken).layout.2.tree.evaluate ⟨⟨2⟩, .x, .beta⟩ = .ok (some 40.0) ∧
      ¬ Agrees (some 10.0) (some 40.0) := by
    decide +kernel
  have hpass : (ofConfig .standard).allSucceed overtaken = true ∧
      (after .standard overtaken).layout.1 = .ok ⟨1, 1, 1, 0⟩ ∧
      ⟨⟨1⟩, .x, .beta⟩ ∈ (after .standard overtaken).registry ∧
      ⟨⟨2⟩, .x, .beta⟩ ∈ (after .standard overtaken).registry ∧
      ⟨⟨2⟩, .x, .beta⟩ ∉ (after .standard overtaken).recalculated := by
    decide +kernel
  obtain ⟨hrelative, hvalue, hdiffers⟩ := hvalues
  obtain ⟨hsucceed, hlayout, hwidth, hspan, hpassed⟩ := hpass
  refine ⟨hsucceed, hlayout, hwidth, hspan, hpassed, ?_⟩
  rintro ⟨value, hfound, hagrees⟩
  rw [hvalue] at hfound
  rw [hrelative, ← Except.ok.inj hfound] at hagrees
  exact hdiffers hagrees

theorem overtaken_current_iff :
    (ofConfig .standard).allSucceed overtaken = true ∧
      (after .standard overtaken).layout.1 = .ok ⟨1, 1, 1, 0⟩ ∧
      ⟨⟨1⟩, .x, .beta⟩ ∈ (after .standard overtaken).registry ∧
      (((after .standard overtaken).layout.2.tree.Current ⟨⟨1⟩, .x, .beta⟩ ↔
          ⟨⟨1⟩, .x, .beta⟩ ∈ (after .standard overtaken).recalculated ∨
            (after .standard overtaken).tree.Current ⟨⟨1⟩, .x, .beta⟩) ∧
        (¬ outrun .standard (overtaken ++ [.layout]) ⟨⟨1⟩, .x, .beta⟩ →
          (after .standard overtaken).layout.2.tree.CurrentUpToOrder ⟨⟨1⟩, .x, .beta⟩)) := by
  have hpass : (ofConfig .standard).allSucceed overtaken = true ∧
      (after .standard overtaken).layout.1 = .ok ⟨1, 1, 1, 0⟩ ∧
      ⟨⟨1⟩, .x, .beta⟩ ∈ (after .standard overtaken).registry := by
    decide +kernel
  obtain ⟨hsucceed, hlayout, hregistered⟩ := hpass
  exact ⟨hsucceed, hlayout, hregistered,
    layout_current_unless_outrun .standard hsucceed hlayout hregistered⟩

end RegionLayout.Hive
