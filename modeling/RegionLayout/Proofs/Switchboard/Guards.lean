import RegionLayout.Proofs.Switchboard.Steps

/-!
Who an emission tells. It tells those it finds at its start, and it finds more than the guarded
subscribers: an emission around it keeps those it found itself callable until it ends.
-/

namespace RegionLayout.Switchboard

/-- The second board comes from the first in some steps, with the same emissions in progress. -/
def Returns (board later : Switchboard) : Prop :=
  ∃ steps : List Step, steps.foldl perform board = later ∧ later.emissions = board.emissions

theorem Returns.refl (board : Switchboard) : board.Returns board :=
  ⟨[], rfl, rfl⟩

theorem Returns.of_perform {board : Switchboard} (step : Step)
    (hsame : (board.perform step).emissions = board.emissions) :
    board.Returns (board.perform step) :=
  ⟨[step], rfl, hsame⟩

/-- The steps lead from the start of an emission to where it has told everyone that it found, and
those it encloses have ended. -/
def Completes (board : Switchboard) (handle : Nat) (value : Int) (during : List Step) : Prop :=
  ∃ emission outer,
    (during.foldl perform (board.perform (.start handle value))).emissions = emission :: outer ∧
      emission.number = board.begun ∧ emission.waiting = []

section Emission

variable {nested : Nat → Switchboard → Switchboard}
  (hnested : ∀ board handle, Returns board (nested (board.channelOf handle) board))

include hnested

theorem returns_react (board : Switchboard) (reaction : Option Reaction) :
    board.Returns (board.react nested reaction) := by
  match reaction with
  | none => exact .refl board
  | some (.emit handle) => exact hnested board handle
  | some (.drop tag) => exact .of_perform (.drop tag) rfl
  | some (.subscribe handle tag) => exact .of_perform (.subscribe handle ⟨tag, none⟩) rfl

/-- The steps in which an emission tells those that wait. -/
theorem exists_tellings {waiting : List Nat} (board : Switchboard) {emission : Emission}
    {outer : List Emission} (hemissions : board.emissions = emission :: outer)
    (hwaiting : emission.waiting = waiting) :
    ∃ steps : List Step,
      steps.foldl perform board = waiting.foldl (fun board _ =>
        board.deliverNext.2.react nested board.deliverNext.1) board ∧
      (steps.foldl perform board).emissions = { emission with waiting := [] } :: outer := by
  induction waiting generalizing board emission with
  | nil =>
      obtain ⟨number, value, snapshot, _⟩ := emission
      cases hwaiting
      exact ⟨[], rfl, hemissions⟩
  | cons number waiting ih =>
      obtain ⟨reaction, hreaction, hsame⟩ :=
        returns_react hnested board.deliverNext.2 board.deliverNext.1
      rw [emissions_deliverNext hemissions hwaiting] at hsame
      obtain ⟨steps, hsteps, htold⟩ := ih _ hsame rfl
      have hrun : (.tell :: reaction ++ steps).foldl perform board =
          steps.foldl perform (board.deliverNext.2.react nested board.deliverNext.1) := by
        rw [List.foldl_append, List.foldl_cons, perform, hreaction]
      exact ⟨.tell :: reaction ++ steps, hrun.trans hsteps, hrun ▸ htold⟩

theorem exists_completes_emitAt (board : Switchboard) (handle : Nat) (value : Int) :
    ∃ during, board.Completes handle value during ∧
      (during ++ [Step.finish]).foldl perform (board.perform (.start handle value)) =
        emitAt nested (board.channelOf handle) value board ∧
      (emitAt nested (board.channelOf handle) value board).emissions = board.emissions := by
  obtain ⟨during, hduring, htold⟩ :=
    exists_tellings hnested (board.perform (.start handle value)) rfl rfl
  have hrun : (during ++ [Step.finish]).foldl perform (board.perform (.start handle value)) =
      emitAt nested (board.channelOf handle) value board := by
    rw [List.foldl_append, hduring]
    rfl
  refine ⟨during, ⟨_, _, htold, rfl, rfl⟩, hrun, ?_⟩
  rw [← hrun, List.foldl_append]
  exact congrArg List.tail htold

end Emission

theorem exists_completes_emitDown (depth : Nat) (board : Switchboard) (handle : Nat) (value : Int) :
    ∃ during, board.Completes handle value during ∧
      (during ++ [Step.finish]).foldl perform (board.perform (.start handle value)) =
        emitDown depth value (board.channelOf handle) board ∧
      (emitDown depth value (board.channelOf handle) board).emissions = board.emissions := by
  induction depth generalizing board handle value with
  | zero => exact exists_completes_emitAt (fun board _ => .refl board) board handle value
  | succ depth ih =>
      refine exists_completes_emitAt (fun board handle => ?_) board handle value
      obtain ⟨during, _, hrun, hsame⟩ := ih board handle (value - 1)
      exact ⟨.start handle (value - 1) :: (during ++ [Step.finish]), hrun, hsame⟩

/-- A whole emission, with all that its callbacks do, is a run of steps that completes it. -/
theorem exists_completes_emit (steps : List Step) (handle : Nat) (value : Int) :
    ∃ during, (after steps).Completes handle value during ∧
      after (steps ++ .start handle value :: during ++ [.finish]) =
        (after steps).emit handle value := by
  obtain ⟨during, hcompletes, hrun, _⟩ :=
    exists_completes_emitDown value.toNat (after steps) handle value
  refine ⟨during, hcompletes, ?_⟩
  rw [after, List.append_assoc, List.foldl_append]
  exact hrun

theorem exists_after_eq_emit (steps : List Step) (handle : Nat) (value : Int) :
    ∃ more, after (steps ++ .start handle value :: more) = (after steps).emit handle value := by
  obtain ⟨during, _, hrun⟩ := exists_completes_emit steps handle value
  exact ⟨during ++ [.finish], by rw [← hrun, List.append_assoc, List.cons_append]⟩

/-! A guard that was dropped stays dropped. -/

theorem isGuarded_iff {board : Switchboard} {subscriber : Nat} :
    board.isGuarded subscriber = true ↔ ∃ tag, (tag, subscriber) ∈ board.guards := by
  simp [isGuarded]

theorem size_subscribers_le_perform (board : Switchboard) (step : Step) :
    board.subscribers.size ≤ (board.perform step).subscribers.size := by
  cases step with
  | subscribe handle newcomer => simp [perform, subscribe]
  | tell => rw [perform, deliverNext_frame]
  | addChannel | shareChannel | drop | start | finish => exact le_rfl

theorem isGuarded_of_perform {board : Switchboard} {step : Step} {subscriber : Nat}
    (hknown : subscriber < board.subscribers.size)
    (hguarded : (board.perform step).isGuarded subscriber = true) :
    board.isGuarded subscriber = true := by
  obtain ⟨tag, hguard⟩ := isGuarded_iff.mp hguarded
  refine isGuarded_iff.mpr ⟨tag, ?_⟩
  cases step with
  | addChannel | shareChannel | start | finish => exact hguard
  | tell =>
      rw [perform, deliverNext_frame] at hguard
      exact hguard
  | drop dropped => exact (List.mem_filter.mp hguard).1
  | subscribe handle newcomer =>
      rcases List.mem_cons.mp hguard with hnew | hold
      · exact absurd (Prod.mk.inj hnew).2 hknown.ne
      · exact (List.mem_filter.mp hold).1

theorem size_subscribers_mono {earlier steps : List Step} (hleads : earlier <+: steps) :
    (after earlier).subscribers.size ≤ (after steps).subscribers.size :=
  mono_of_perform (fun board => board.subscribers.size) size_subscribers_le_perform hleads

theorem isGuarded_of_after_append {steps more : List Step} {subscriber : Nat}
    (hknown : subscriber < (after steps).subscribers.size)
    (hguarded : (after (steps ++ more)).isGuarded subscriber = true) :
    (after steps).isGuarded subscriber = true := by
  induction more using List.reverseRecOn with
  | nil => rwa [List.append_nil] at hguarded
  | append_singleton more step ih =>
      rw [← List.append_assoc, after_snoc] at hguarded
      exact ih (isGuarded_of_perform
        (hknown.trans_le (size_subscribers_mono (List.prefix_append _ _))) hguarded)

/-- An emission tells those it finds at its start. It finds a subscriber of its channel while the
guard is held, and afterwards for as long as some emission is in progress that found the subscriber
while the guard was held. -/
theorem callbacks_outlive_guards (steps : List Step) :
    (∀ handle value, ∃ more,
      after (steps ++ .start handle value :: more) = (after steps).emit handle value) ∧
    (∀ delivery ∈ (after steps).deliveries, ∃ earlier handle value,
      earlier ++ [.start handle value] <+: steps ∧ delivery.emission = (after earlier).begun ∧
      delivery.subscriber ∈ (after earlier).found ((after earlier).channelOf handle)) ∧
    (∀ channel subscriber, subscriber ∈ (after steps).found channel ↔
      subscriber ∈ (after steps).roster channel ∧
        ((after steps).isGuarded subscriber = true ∨
          ∃ emission ∈ (after steps).emissions, ∃ earlier handle outer,
            Began steps emission outer earlier handle ∧ subscriber ∈ emission.snapshot ∧
            (after earlier).isGuarded subscriber = true)) ∧
    (∀ more subscriber, subscriber < (after steps).subscribers.size →
      (after (steps ++ more)).isGuarded subscriber = true →
      (after steps).isGuarded subscriber = true) := by
  refine ⟨exists_after_eq_emit steps, fun delivery => exists_found_of_mem_deliveries, ?_,
    fun more subscriber => isGuarded_of_after_append⟩
  intro channel subscriber
  rw [mem_found_iff]
  refine and_congr_right fun _ => or_congr_right ?_
  constructor
  · rintro ⟨emission, hemission, hsubscriber⟩
    obtain ⟨inner, outer, hemissions⟩ := List.append_of_mem hemission
    obtain ⟨keeper, hkeeper, hkept⟩ := exists_guarded_of_mem_snapshot hemissions hsubscriber
    exact ⟨keeper, hemissions ▸ List.mem_append_right _ hkeeper, hkept⟩
  · rintro ⟨emission, hemission, _, _, _, _, hsubscriber, _⟩
    exact ⟨emission, hemission, hsubscriber⟩

section Encore

/-- Of two subscribers the first drops its own guard, and the second emits again. -/
def duo : List Step :=
  [.addChannel, .subscribe 0 ⟨"once", some (.drop "once")⟩, .subscribe 0 ⟨"echo", some (.emit 0)⟩]

def beforeEncore : List Step :=
  duo ++ [.start 0 1, .tell, .drop "once", .tell]

/-- All that happens when 1 is emitted to the two of them. -/
def encore : List Step :=
  beforeEncore ++ [.start 0 0, .tell, .drop "once", .tell, .finish, .finish]

/-- The emission of 0 begins when the guard is gone, and still tells the first. -/
theorem dropped_guard_called :
    after encore = (after duo).emit 0 1 ∧
    ¬ ∀ (steps : List Step) (delivery : Delivery) (earlier : List Step) (handle : Nat)
        (value : Int), delivery ∈ (after steps).deliveries →
      earlier ++ [.start handle value] <+: steps → delivery.emission = (after earlier).begun →
      (after earlier).isGuarded delivery.subscriber = true := by
  refine ⟨by decide +kernel, fun hclaim => ?_⟩
  have hguarded := hclaim encore ⟨1, 0, "once", 0⟩ beforeEncore 0 0 (by decide +kernel)
    ⟨[.tell, .drop "once", .tell, .finish, .finish], rfl⟩ (by decide +kernel)
  exact absurd hguarded (by decide +kernel)

/-- It is found because the emission of 1 found it and is still in progress. -/
theorem dropped_guard_found :
    (after beforeEncore).isGuarded 0 = false ∧
    ∃ emission ∈ (after beforeEncore).emissions, ∃ earlier handle outer,
      Began beforeEncore emission outer earlier handle ∧ 0 ∈ emission.snapshot ∧
      (after earlier).isGuarded 0 = true := by
  have hdropped : (after beforeEncore).isGuarded 0 = false := by decide +kernel
  have hfound := ((callbacks_outlive_guards beforeEncore).2.2.1 0 0).mp (by decide +kernel)
  exact ⟨hdropped, hfound.2.resolve_left (by rw [hdropped]; exact Bool.false_ne_true)⟩

end Encore

end RegionLayout.Switchboard
