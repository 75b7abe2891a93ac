import Mathlib.Data.List.Infix
import RegionLayout.Switchboard

/-!
Runs of a switchboard, step by step. A callback may do anything between the step that tells it and
the next, so emissions in progress form a stack: an emission began when exactly those outside it
were in progress, and whoever it tells it found at its start.
-/

namespace RegionLayout.Switchboard

inductive Step where
  | addChannel
  | shareChannel (handle : Nat)
  | subscribe (handle : Nat) (subscriber : Subscriber)
  | drop (tag : String)
  /-- Begins an emission, which tells nobody yet. -/
  | start (handle : Nat) (value : Int)
  /-- Tells the next subscriber of the innermost emission. -/
  | tell
  /-- Ends the innermost emission. -/
  | finish
  deriving DecidableEq, Repr

def channelOf (board : Switchboard) (handle : Nat) : Nat :=
  board.handles.getD handle 0

def perform (board : Switchboard) : Step → Switchboard
  | .addChannel => board.addChannel
  | .shareChannel handle => board.shareChannel handle
  | .subscribe handle subscriber => board.subscribe handle subscriber
  | .drop tag => (board.drop tag).2
  | .start handle value => board.beginEmission (board.channelOf handle) value
  | .tell => board.deliverNext.2
  | .finish => board.endEmission

/-- The board after some steps, starting from none. -/
def after (steps : List Step) : Switchboard :=
  steps.foldl perform empty

theorem after_snoc (steps : List Step) (step : Step) :
    after (steps ++ [step]) = (after steps).perform step := by
  rw [after, List.foldl_append, List.foldl_cons, List.foldl_nil, after]

theorem mono_of_perform (measure : Switchboard → Nat)
    (hperform : ∀ board step, measure board ≤ measure (board.perform step))
    {earlier steps : List Step} (hleads : earlier <+: steps) :
    measure (after earlier) ≤ measure (after steps) := by
  obtain ⟨more, rfl⟩ := hleads
  induction more using List.reverseRecOn with
  | nil => rw [List.append_nil]
  | append_singleton more step ih =>
      rw [← List.append_assoc, after_snoc]
      exact ih.trans (hperform _ step)

/-- The subscribers of a channel that an emission would find if it began now. -/
def found (board : Switchboard) (channel : Nat) : List Nat :=
  (board.roster channel).filter board.isAlive

theorem mem_found_iff {board : Switchboard} {channel subscriber : Nat} :
    subscriber ∈ board.found channel ↔ subscriber ∈ board.roster channel ∧
      (board.isGuarded subscriber = true ∨
        ∃ emission ∈ board.emissions, subscriber ∈ emission.snapshot) := by
  rw [found, List.mem_filter, isAlive, Bool.or_eq_true, List.any_eq_true]
  simp only [List.contains_iff_mem]

/-! What one step does to the emissions in progress, and to what was delivered. -/

/-- The next in line is told the event, whatever became of the guard since. -/
theorem deliverNext_of_waiting {board : Switchboard} {emission : Emission} {outer : List Emission}
    {number : Nat} {waiting : List Nat} (hemissions : board.emissions = emission :: outer)
    (hwaiting : emission.waiting = number :: waiting) (hknown : number < board.subscribers.size) :
    board.deliverNext.2.deliveries = board.deliveries.push
      ⟨emission.number, number, board.subscribers[number].tag, emission.value⟩ := by
  simp [deliverNext, hemissions, hwaiting, hknown]

theorem deliverNext_frame (board : Switchboard) :
    board.deliverNext.2 = { board with
      emissions := board.deliverNext.2.emissions
      deliveries := board.deliverNext.2.deliveries } := by
  unfold deliverNext
  cases board.emissions with
  | nil => rfl
  | cons emission outer =>
      cases hwaiting : emission.waiting with
      | nil => simp [hwaiting]
      | cons number waiting => cases hfound : board.subscribers[number]? <;> simp [hwaiting, hfound]

theorem emissions_deliverNext {board : Switchboard} {emission : Emission} {outer : List Emission}
    {number : Nat} {waiting : List Nat} (hemissions : board.emissions = emission :: outer)
    (hwaiting : emission.waiting = number :: waiting) :
    board.deliverNext.2.emissions = { emission with waiting } :: outer := by
  cases hsubscriber : board.subscribers[number]? with
  | none => simp [deliverNext, hemissions, hwaiting, hsubscriber]
  | some subscriber => simp [deliverNext, hemissions, hwaiting, hsubscriber]

theorem deliverNext_spec (board : Switchboard) :
    (board.deliverNext.2.emissions = board.emissions ∧
      board.deliverNext.2.deliveries = board.deliveries) ∨
    ∃ emission number waiting outer, board.emissions = emission :: outer ∧
      emission.waiting = number :: waiting ∧
      board.deliverNext.2.emissions = { emission with waiting } :: outer ∧
      ∀ delivery ∈ board.deliverNext.2.deliveries, delivery ∈ board.deliveries ∨
        delivery.emission = emission.number ∧ delivery.subscriber = number := by
  cases hemissions : board.emissions with
  | nil => exact .inl (by simp [deliverNext, hemissions])
  | cons emission outer =>
      cases hwaiting : emission.waiting with
      | nil => exact .inl (by simp [deliverNext, hemissions, hwaiting])
      | cons number waiting =>
          refine .inr ⟨emission, number, waiting, outer, rfl, hwaiting,
            emissions_deliverNext hemissions hwaiting, fun delivery hdelivery => ?_⟩
          cases hsubscriber : board.subscribers[number]? with
          | none =>
              exact .inl (by simpa [deliverNext, hemissions, hwaiting, hsubscriber] using hdelivery)
          | some subscriber =>
              have hpush : delivery ∈ board.deliveries ∨
                  delivery = ⟨emission.number, number, subscriber.tag, emission.value⟩ := by
                simpa [deliverNext, hemissions, hwaiting, hsubscriber] using hdelivery
              rcases hpush with hold | rfl
              · exact .inl hold
              · exact .inr ⟨rfl, rfl⟩

/-- How an emission in progress began: after which steps, through which handle, and inside which
other emissions. -/
structure Began (steps : List Step) (emission : Emission) (outer : List Emission)
    (earlier : List Step) (handle : Nat) : Prop where
  started : earlier ++ [.start handle emission.value] <+: steps
  number : emission.number = (after earlier).begun
  outside : (after earlier).emissions = outer
  snapshot : emission.snapshot = (after earlier).found ((after earlier).channelOf handle)
  waiting : emission.waiting <:+ emission.snapshot

theorem Began.snoc {steps earlier : List Step} {emission : Emission} {outer : List Emission}
    {handle : Nat} (hbegan : Began steps emission outer earlier handle) (step : Step) :
    Began (steps ++ [step]) emission outer earlier handle :=
  { hbegan with started := hbegan.started.trans (List.prefix_append _ _) }

/-- The emissions in progress, from the innermost outwards, began one inside the other. -/
theorem exists_began {steps : List Step} {inner outer : List Emission} {emission : Emission}
    (hemissions : (after steps).emissions = inner ++ emission :: outer) :
    ∃ earlier handle, Began steps emission outer earlier handle := by
  induction steps using List.reverseRecOn generalizing inner emission outer with
  | nil => simp [after, empty] at hemissions
  | append_singleton steps step ih =>
      have hkept : ∀ {inner}, (after steps).emissions = inner ++ emission :: outer →
          ∃ earlier handle, Began (steps ++ [step]) emission outer earlier handle := by
        intro inner hsame
        obtain ⟨earlier, handle, hbegan⟩ := ih hsame
        exact ⟨earlier, handle, hbegan.snoc step⟩
      rw [after_snoc] at hemissions
      -- Only a start begins an emission; a step may also tell the innermost one, or end it.
      cases step with
      | addChannel | shareChannel | subscribe | drop => exact hkept hemissions
      | start handle value =>
          cases inner with
          | nil =>
              obtain ⟨rfl, hrest⟩ := List.cons.inj hemissions
              exact ⟨steps, handle, List.prefix_rfl, rfl, hrest, rfl, List.suffix_rfl⟩
          | cons first inner => exact hkept (List.cons.inj hemissions).2
      | tell =>
          rcases (after steps).deliverNext_spec with ⟨hsame, _⟩ |
            ⟨last, number, waiting, others, hold, hwaiting, hnew, _⟩
          · exact hkept (hsame.symm.trans hemissions)
          · rw [perform, hnew] at hemissions
            cases inner with
            | nil =>
                obtain ⟨rfl, rfl⟩ := List.cons.inj hemissions
                obtain ⟨earlier, handle, hbegan⟩ := ih (hold.trans (List.nil_append _).symm)
                exact ⟨earlier, handle, (hbegan.snoc _).started, hbegan.number, hbegan.outside,
                  hbegan.snapshot,
                  (hwaiting ▸ List.suffix_cons number waiting).trans hbegan.waiting⟩
            | cons first inner =>
                rw [(List.cons.inj hemissions).2] at hold
                exact hkept (List.cons_append ▸ hold)
      | finish =>
          cases hold : (after steps).emissions with
          | nil => simp [perform, endEmission, hold] at hemissions
          | cons last others =>
              have hothers : others = inner ++ emission :: outer := by
                simpa only [perform, endEmission, hold, List.tail_cons] using hemissions
              rw [hothers] at hold
              exact hkept (List.cons_append ▸ hold)

/-- Whoever was told an event was found at the start of the emission that told it. -/
theorem exists_found_of_mem_deliveries {steps : List Step} {delivery : Delivery}
    (hdelivery : delivery ∈ (after steps).deliveries) :
    ∃ earlier handle value, earlier ++ [.start handle value] <+: steps ∧
      delivery.emission = (after earlier).begun ∧
      delivery.subscriber ∈ (after earlier).found ((after earlier).channelOf handle) := by
  induction steps using List.reverseRecOn with
  | nil => simp [after, empty] at hdelivery
  | append_singleton steps step ih =>
      have hkept : delivery ∈ (after steps).deliveries →
          ∃ earlier handle value, earlier ++ [.start handle value] <+: steps ++ [step] ∧
            delivery.emission = (after earlier).begun ∧
            delivery.subscriber ∈ (after earlier).found ((after earlier).channelOf handle) := by
        intro hold
        obtain ⟨earlier, handle, value, hstarted, hfound⟩ := ih hold
        exact ⟨earlier, handle, value, hstarted.trans (List.prefix_append _ _), hfound⟩
      rw [after_snoc] at hdelivery
      cases step with
      | addChannel | shareChannel | subscribe | drop | start | finish => exact hkept hdelivery
      | tell =>
          rcases (after steps).deliverNext_spec with ⟨_, hsame⟩ |
            ⟨emission, number, waiting, outer, hold, hwaiting, _, htold⟩
          · exact hkept (hsame ▸ hdelivery)
          · rcases htold delivery hdelivery with hbefore | ⟨hnumber, hsubscriber⟩
            · exact hkept hbefore
            · obtain ⟨earlier, handle, hbegan⟩ :=
                exists_began (hold.trans (List.nil_append _).symm)
              refine ⟨earlier, handle, emission.value, (hbegan.snoc _).started,
                hnumber.trans hbegan.number, ?_⟩
              rw [hsubscriber, ← hbegan.snapshot]
              exact hbegan.waiting.subset (hwaiting ▸ List.mem_cons_self)

/-- A subscriber that an emission in progress found is kept callable by that emission or by one
outside it, which began while the guard was held. -/
theorem exists_guarded_of_mem_snapshot {steps : List Step} {emission : Emission}
    {inner outer : List Emission} {subscriber : Nat}
    (hemissions : (after steps).emissions = inner ++ emission :: outer)
    (hsubscriber : subscriber ∈ emission.snapshot) :
    ∃ keeper ∈ emission :: outer, ∃ earlier handle outside,
      Began steps keeper outside earlier handle ∧ subscriber ∈ keeper.snapshot ∧
      (after earlier).isGuarded subscriber = true := by
  -- Outwards: who was found without a guard was found by an emission further out.
  induction hdepth : outer.length using Nat.strong_induction_on
    generalizing inner emission outer with
  | _ depth ih =>
      obtain ⟨earlier, handle, hbegan⟩ := exists_began hemissions
      have hfound := hbegan.snapshot ▸ hsubscriber
      rcases (mem_found_iff.mp hfound).2 with hguarded | ⟨further, hfurther, hheld⟩
      · exact ⟨emission, List.mem_cons_self, earlier, handle, outer, hbegan, hsubscriber, hguarded⟩
      · rw [hbegan.outside] at hfurther
        obtain ⟨between, outside, rfl⟩ := List.append_of_mem hfurther
        have hless : outside.length < depth := by
          rw [← hdepth, List.length_append, List.length_cons]
          omega
        rw [← List.cons_append, ← List.append_assoc] at hemissions
        obtain ⟨keeper, hkeeper, hkept⟩ := ih _ hless hemissions hheld rfl
        exact ⟨keeper, List.mem_cons_of_mem _ (List.mem_append_right _ hkeeper), hkept⟩

end RegionLayout.Switchboard
