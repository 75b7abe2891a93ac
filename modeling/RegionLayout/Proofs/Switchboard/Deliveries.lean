import RegionLayout.Proofs.Switchboard.Guards

/-!
What an emission tells. As long as it is in progress, those it told and those that wait make up the
subscribers that it found at its start, in their order; once it has ended it tells nobody. What it
found are subscribers that came before, each once, and all those among them whose guard was held.
-/

namespace RegionLayout.Switchboard

/-! Rosters. -/

/-- The subscriber with this number came to the channel in one of the steps. -/
def Subscribed (steps : List Step) (channel number : Nat) : Prop :=
  ∃ before handle newcomer, before ++ [.subscribe handle newcomer] <+: steps ∧
    (after before).channelOf handle = channel ∧ channel < (after before).rosters.size ∧
    number = (after before).subscribers.size

theorem Subscribed.snoc {steps : List Step} {channel number : Nat}
    (hsubscribed : Subscribed steps channel number) (step : Step) :
    Subscribed (steps ++ [step]) channel number := by
  obtain ⟨before, handle, newcomer, hbefore, hcame⟩ := hsubscribed
  exact ⟨before, handle, newcomer, hbefore.trans (List.prefix_append _ _), hcame⟩

theorem Subscribed.lt {steps : List Step} {channel number : Nat}
    (hsubscribed : Subscribed steps channel number) :
    number < (after steps).subscribers.size := by
  obtain ⟨before, handle, newcomer, hbefore, _, _, rfl⟩ := hsubscribed
  apply lt_of_lt_of_le _ (size_subscribers_mono hbefore)
  rw [after_snoc, perform, subscribe, Array.size_push]
  exact Nat.lt_succ_self _

theorem subscribed_snoc {steps : List Step} {step : Step} {channel number : Nat}
    (hsubscribed : Subscribed (steps ++ [step]) channel number) :
    Subscribed steps channel number ∨
      ∃ handle newcomer, step = .subscribe handle newcomer ∧
        (after steps).channelOf handle = channel ∧ channel < (after steps).rosters.size ∧
        number = (after steps).subscribers.size := by
  obtain ⟨before, handle, newcomer, hbefore, hcame⟩ := hsubscribed
  rcases List.prefix_concat_iff.mp hbefore with hlast | hearlier
  · obtain ⟨rfl, hstep⟩ := List.append_inj' hlast rfl
    exact .inr ⟨handle, newcomer, (List.cons.inj hstep).1.symm, hcame⟩
  · exact .inl ⟨before, handle, newcomer, hearlier, hcame⟩

theorem roster_perform (board : Switchboard) (step : Step) (channel : Nat) :
    (board.perform step).roster channel =
      match step with
      | .subscribe handle _ =>
          if board.channelOf handle = channel ∧ channel < board.rosters.size
          then board.roster channel ++ [board.subscribers.size] else board.roster channel
      | .start handle _ =>
          if board.channelOf handle = channel then board.found channel else board.roster channel
      | _ => board.roster channel := by
  cases step with
  | shareChannel | drop | finish => rfl
  | tell => rw [perform, deliverNext_frame, roster, roster]
  | addChannel =>
      simp only [perform, addChannel, roster, Array.getD_eq_getD_getElem?, Array.getElem?_push]
      split
      · next hlast => simp [hlast]
      · rfl
  | subscribe handle newcomer =>
      change (board.rosters.modify (board.channelOf handle) (· ++ [board.subscribers.size])).getD
        channel [] = _
      simp only [roster, Array.getD_eq_getD_getElem?, Array.getElem?_modify]
      generalize board.channelOf handle = target
      split
      · by_cases hlt : channel < board.rosters.size <;> simp [*]
      · simp [*]
  | start handle value =>
      simp only [perform, beginEmission, found, roster, Array.getD_eq_getD_getElem?,
        Array.getElem?_setIfInBounds]
      generalize board.channelOf handle = target
      split
      · by_cases hlt : channel < board.rosters.size <;> simp [*]
      · rfl

theorem subscribed_of_mem_roster {steps : List Step} {channel number : Nat}
    (hnumber : number ∈ (after steps).roster channel) : Subscribed steps channel number := by
  induction steps using List.reverseRecOn with
  | nil => simp [after, empty, roster] at hnumber
  | append_singleton steps step ih =>
      rw [after_snoc, roster_perform] at hnumber
      cases step with
      | addChannel | shareChannel | drop | tell | finish => exact (ih hnumber).snoc _
      | start handle value =>
          dsimp only at hnumber
          split at hnumber
          · exact (ih (List.mem_filter.mp hnumber).1).snoc _
          · exact (ih hnumber).snoc _
      | subscribe handle newcomer =>
          dsimp only at hnumber
          split at hnumber
          · next hchannel =>
            rcases List.mem_append.mp hnumber with hold | hnew
            · exact (ih hold).snoc _
            · exact ⟨steps, handle, newcomer, List.prefix_rfl, hchannel.1, hchannel.2,
                List.mem_singleton.mp hnew⟩
          · exact (ih hnumber).snoc _

theorem pairwise_roster (steps : List Step) (channel : Nat) :
    ((after steps).roster channel).Pairwise (· < ·) := by
  induction steps using List.reverseRecOn with
  | nil => simp [after, empty, roster]
  | append_singleton steps step ih =>
      rw [after_snoc, roster_perform]
      cases step with
      | addChannel | shareChannel | drop | tell | finish => exact ih
      | start handle value =>
          dsimp only
          split
          · exact ih.filter _
          · exact ih
      | subscribe handle newcomer =>
          dsimp only
          split
          · apply List.pairwise_append.mpr
            refine ⟨ih, List.pairwise_singleton _ _, fun number hnumber newest hnewest => ?_⟩
            rw [List.mem_singleton.mp hnewest]
            exact (subscribed_of_mem_roster hnumber).lt
          · exact ih

/-- A channel does not forget a subscriber whose guard is held. -/
theorem mem_roster_of_guarded {steps : List Step} {channel number : Nat}
    (hguarded : (after steps).isGuarded number = true)
    (hsubscribed : Subscribed steps channel number) : number ∈ (after steps).roster channel := by
  induction steps using List.reverseRecOn with
  | nil =>
      obtain ⟨before, handle, newcomer, hbefore, _⟩ := hsubscribed
      simp at hbefore
  | append_singleton steps step ih =>
      rw [after_snoc, roster_perform]
      rcases subscribed_snoc hsubscribed with hold | ⟨handle, newcomer, rfl, hchannel, hlt, rfl⟩
      · rw [after_snoc] at hguarded
        -- Guards are never taken up again, so that it was held all along.
        have hbefore := isGuarded_of_perform hold.lt hguarded
        have hnumber := ih hbefore hold
        cases step with
        | addChannel | shareChannel | drop | tell | finish => exact hnumber
        | start handle value =>
            dsimp only
            split
            · exact mem_found_iff.mpr ⟨hnumber, .inl hbefore⟩
            · exact hnumber
        | subscribe handle newcomer =>
            dsimp only
            split
            · exact List.mem_append_left _ hnumber
            · exact hnumber
      · dsimp only
        rw [if_pos ⟨hchannel, hlt⟩]
        exact List.mem_append_right _ (List.mem_singleton_self _)

/-! Numbers of emissions. -/

theorem begun_le_perform (board : Switchboard) (step : Step) :
    board.begun ≤ (board.perform step).begun := by
  cases step with
  | start handle value => exact Nat.le_succ _
  | tell => rw [perform, deliverNext_frame]
  | addChannel | shareChannel | subscribe | drop | finish => exact le_rfl

theorem begun_lt_of_start {earlier steps : List Step} {handle : Nat} {value : Int}
    (hstarted : earlier ++ [.start handle value] <+: steps) :
    (after earlier).begun < (after steps).begun := by
  apply lt_of_lt_of_le _ (mono_of_perform begun begun_le_perform hstarted)
  rw [after_snoc]
  exact Nat.lt_succ_self _

/-- The number of an emission says where in a run it began. -/
theorem start_unique {steps first second : List Step} {handle handle' : Nat} {value value' : Int}
    (hfirst : first ++ [.start handle value] <+: steps)
    (hsecond : second ++ [.start handle' value'] <+: steps)
    (hbegun : (after first).begun = (after second).begun) :
    first = second ∧ handle = handle' ∧ value = value' := by
  rcases lt_trichotomy first.length second.length with hlt | heq | hlt
  · have hleads : first ++ [.start handle value] <+: second :=
      List.prefix_of_prefix_length_le hfirst ((List.prefix_append _ _).trans hsecond)
        (by simpa using Nat.succ_le_of_lt hlt)
    exact absurd hbegun (begun_lt_of_start hleads).ne
  · have hleads := List.prefix_of_prefix_length_le hfirst hsecond (by simp [heq])
    obtain ⟨rfl, hstep⟩ := List.append_inj (hleads.eq_of_length (by simp [heq])) heq
    cases hstep
    exact ⟨rfl, rfl, rfl⟩
  · have hleads : second ++ [.start handle' value'] <+: first :=
      List.prefix_of_prefix_length_le hsecond ((List.prefix_append _ _).trans hfirst)
        (by simpa using Nat.succ_le_of_lt hlt)
    exact absurd hbegun.symm (begun_lt_of_start hleads).ne

theorem number_lt_begun {steps : List Step} {emission : Emission}
    (hemission : emission ∈ (after steps).emissions) :
    emission.number < (after steps).begun := by
  obtain ⟨inner, outer, hemissions⟩ := List.append_of_mem hemission
  obtain ⟨earlier, handle, hbegan⟩ := exists_began hemissions
  rw [hbegan.number]
  exact begun_lt_of_start hbegan.started

theorem number_lt_of_outside {steps : List Step} {emission other : Emission}
    {inner outer : List Emission}
    (hemissions : (after steps).emissions = inner ++ emission :: outer)
    (hother : other ∈ outer) : other.number < emission.number := by
  obtain ⟨earlier, handle, hbegan⟩ := exists_began hemissions
  rw [hbegan.number]
  exact number_lt_begun (hbegan.outside ▸ hother)

theorem lt_of_mem_snapshot {steps : List Step} {emission : Emission} {number : Nat}
    (hemission : emission ∈ (after steps).emissions) (hnumber : number ∈ emission.snapshot) :
    number < (after steps).subscribers.size := by
  obtain ⟨inner, outer, hemissions⟩ := List.append_of_mem hemission
  obtain ⟨earlier, handle, hbegan⟩ := exists_began hemissions
  rw [hbegan.snapshot] at hnumber
  exact (subscribed_of_mem_roster (List.mem_filter.mp hnumber).1).lt.trans_le
    (size_subscribers_mono ((List.prefix_append _ _).trans hbegan.started))

/-! Deliveries. -/

/-- How a subscriber is told the event of an emission. -/
def message (board : Switchboard) (emission : Nat) (value : Int) (number : Nat) : Delivery :=
  ⟨emission, number, (board.subscribers[number]?.map (·.tag)).getD "", value⟩

/-- What an emission has told so far, in order. -/
def deliveriesOf (board : Switchboard) (emission : Nat) : List Delivery :=
  board.deliveries.toList.filter (·.emission == emission)

theorem message_perform {board : Switchboard} {number : Nat}
    (hknown : number < board.subscribers.size) (step : Step) (emission : Nat) (value : Int) :
    (board.perform step).message emission value number = board.message emission value number := by
  cases step with
  | tell => rw [perform, deliverNext_frame, message, message]
  | subscribe handle newcomer =>
      rw [message, message, perform, subscribe, Array.getElem?_push, if_neg hknown.ne]
  | addChannel | shareChannel | drop | start | finish => rfl

theorem message_after_append {steps : List Step} {number : Nat}
    (hknown : number < (after steps).subscribers.size) (more : List Step) (emission : Nat)
    (value : Int) :
    (after (steps ++ more)).message emission value number =
      (after steps).message emission value number := by
  induction more using List.reverseRecOn with
  | nil => rw [List.append_nil]
  | append_singleton more step ih =>
      have hstill := hknown.trans_le (size_subscribers_mono (List.prefix_append steps more))
      rw [← List.append_assoc, after_snoc, message_perform hstill, ih]

theorem deliveriesOf_perform_of_ne_tell (board : Switchboard) {step : Step} (hstep : step ≠ .tell)
    (emission : Nat) : (board.perform step).deliveriesOf emission =
      board.deliveriesOf emission := by
  cases step with
  | tell => exact absurd rfl hstep
  | addChannel | shareChannel | subscribe | drop | start | finish => rfl

/-- A step of a run that tells somebody tells the next in line of the innermost emission. -/
theorem tell_spec (steps : List Step) :
    ((after (steps ++ [.tell])).emissions = (after steps).emissions ∧
      (after (steps ++ [.tell])).deliveries = (after steps).deliveries) ∨
    ∃ emission number waiting outer, (after steps).emissions = emission :: outer ∧
      emission.waiting = number :: waiting ∧ number < (after steps).subscribers.size ∧
      (after (steps ++ [.tell])).emissions = { emission with waiting } :: outer ∧
      ∀ other, (after (steps ++ [.tell])).deliveriesOf other =
        if other = emission.number then (after steps).deliveriesOf other ++
          [(after steps).message emission.number emission.value number]
        else (after steps).deliveriesOf other := by
  rw [after_snoc, perform]
  refine (after steps).deliverNext_spec.imp_right ?_
  rintro ⟨emission, number, waiting, outer, hemissions, hwaiting, hnew, _⟩
  obtain ⟨earlier, handle, hbegan⟩ := exists_began (hemissions.trans (List.nil_append _).symm)
  have hknown : number < (after steps).subscribers.size :=
    lt_of_mem_snapshot (hemissions ▸ List.mem_cons_self)
      (hbegan.waiting.subset (hwaiting ▸ List.mem_cons_self))
  refine ⟨emission, number, waiting, outer, hemissions, hwaiting, hknown, hnew, fun other => ?_⟩
  have hmessage : (after steps).message emission.number emission.value number =
      ⟨emission.number, number, (after steps).subscribers[number].tag, emission.value⟩ := by
    rw [message, Array.getElem?_eq_getElem hknown]
    rfl
  rw [deliveriesOf, deliverNext_of_waiting hemissions hwaiting hknown, ← hmessage,
    Array.toList_push, List.filter_append]
  by_cases hother : other = emission.number
  · rw [if_pos hother, hother, deliveriesOf, List.filter_singleton]
    simp [message]
  · rw [if_neg hother, deliveriesOf]
    simp [message, Ne.symm hother]

/-- The emission has told those it found, up to those that wait. -/
def HasTold (board : Switchboard) (emission : Emission) : Prop :=
  ∃ told, told ++ emission.waiting = emission.snapshot ∧
    board.deliveriesOf emission.number = told.map (board.message emission.number emission.value)

/-- What an emission already told stays told in the same words. -/
theorem map_message_snoc {steps : List Step} {emission : Emission} {told : List Nat}
    (hemission : emission ∈ (after steps).emissions)
    (hsnapshot : told ++ emission.waiting = emission.snapshot) (step : Step) :
    told.map ((after (steps ++ [step])).message emission.number emission.value) =
      told.map ((after steps).message emission.number emission.value) := by
  rw [after_snoc]
  refine List.map_congr_left fun number hnumber => message_perform ?_ step _ _
  exact lt_of_mem_snapshot hemission (hsnapshot ▸ List.mem_append_left _ hnumber)

theorem HasTold.snoc {steps : List Step} {emission : Emission}
    (htold : (after steps).HasTold emission) (hemission : emission ∈ (after steps).emissions)
    {step : Step} (hsame : (after (steps ++ [step])).deliveriesOf emission.number =
      (after steps).deliveriesOf emission.number) :
    (after (steps ++ [step])).HasTold emission := by
  obtain ⟨told, hsnapshot, hdeliveries⟩ := htold
  refine ⟨told, hsnapshot, ?_⟩
  rw [hsame, hdeliveries, map_message_snoc hemission hsnapshot]

theorem HasTold.tell {steps : List Step} {emission : Emission} {number : Nat} {waiting : List Nat}
    (htold : (after steps).HasTold emission) (hemission : emission ∈ (after steps).emissions)
    (hwaiting : emission.waiting = number :: waiting)
    (hknown : number < (after steps).subscribers.size)
    (hdeliveries : (after (steps ++ [.tell])).deliveriesOf emission.number =
      (after steps).deliveriesOf emission.number ++
        [(after steps).message emission.number emission.value number]) :
    (after (steps ++ [.tell])).HasTold { emission with waiting } := by
  obtain ⟨told, hsnapshot, hbefore⟩ := htold
  refine ⟨told ++ [number], ?_, ?_⟩
  · rw [← hsnapshot, hwaiting, List.append_assoc, List.singleton_append]
  · rw [hdeliveries, hbefore, List.map_append, List.map_singleton,
      map_message_snoc hemission hsnapshot, after_snoc, message_perform hknown]

/-- An emission that begins has a number that nobody was told under. -/
theorem hasTold_start (steps : List Step) (handle : Nat) (value : Int) :
    (after (steps ++ [.start handle value])).HasTold
      ⟨(after steps).begun, value, (after steps).found ((after steps).channelOf handle),
        (after steps).found ((after steps).channelOf handle)⟩ := by
  refine ⟨[], rfl, ?_⟩
  rw [after_snoc, deliveriesOf_perform_of_ne_tell _ Step.noConfusion]
  refine List.filter_eq_nil_iff.mpr fun delivery hdelivery => ?_
  obtain ⟨earlier, _, _, hstarted, hnumber, _⟩ :=
    exists_found_of_mem_deliveries (Array.mem_toList_iff.mp hdelivery)
  simpa [hnumber] using (begun_lt_of_start hstarted).ne

theorem hasTold_tell {steps : List Step}
    (htold : ∀ emission ∈ (after steps).emissions, (after steps).HasTold emission) :
    ∀ emission ∈ (after (steps ++ [.tell])).emissions,
      (after (steps ++ [.tell])).HasTold emission := by
  intro emission hemission
  rcases tell_spec steps with ⟨hsame, hdeliveries⟩ |
    ⟨head, number, waiting, outer, hbefore, hwaiting, hknown, hnew, htells⟩
  · rw [hsame] at hemission
    exact (htold emission hemission).snoc hemission
      (by rw [deliveriesOf, hdeliveries, deliveriesOf])
  · have hhead : head ∈ (after steps).emissions := hbefore ▸ List.mem_cons_self
    rw [hnew] at hemission
    rcases List.mem_cons.mp hemission with rfl | houter
    · exact (htold head hhead).tell hhead hwaiting hknown (by rw [htells, if_pos rfl])
    · have hlt := number_lt_of_outside (hbefore.trans (List.nil_append _).symm) houter
      have hold : emission ∈ (after steps).emissions := hbefore ▸ List.mem_cons_of_mem _ houter
      exact (htold emission hold).snoc hold (by rw [htells, if_neg hlt.ne])

theorem hasTold {steps : List Step} {emission : Emission}
    (hemission : emission ∈ (after steps).emissions) : (after steps).HasTold emission := by
  induction steps using List.reverseRecOn generalizing emission with
  | nil => simp [after, empty] at hemission
  | append_singleton steps step ih =>
      by_cases hstep : step = .tell
      · subst hstep
        exact hasTold_tell (fun _ => ih) emission hemission
      · -- Nobody is told, so that only emissions that begin have to be looked at.
        have hkept : emission ∈ (after steps).emissions →
            (after (steps ++ [step])).HasTold emission := by
          intro hbefore
          refine (ih hbefore).snoc hbefore ?_
          rw [after_snoc, deliveriesOf_perform_of_ne_tell _ hstep]
        rw [after_snoc] at hemission
        cases step with
        | tell => exact absurd rfl hstep
        | addChannel | shareChannel | subscribe | drop => exact hkept hemission
        | finish => exact hkept (List.mem_of_mem_tail hemission)
        | start handle value =>
            rcases List.mem_cons.mp hemission with rfl | hbefore
            · exact hasTold_start steps handle value
            · exact hkept hbefore

theorem ended_snoc {steps : List Step} {number : Nat} (hnumber : number < (after steps).begun)
    (hended : ∀ emission ∈ (after steps).emissions, emission.number ≠ number) (step : Step) :
    (∀ emission ∈ (after (steps ++ [step])).emissions, emission.number ≠ number) ∧
      (after (steps ++ [step])).deliveriesOf number = (after steps).deliveriesOf number := by
  by_cases hstep : step = .tell
  · subst hstep
    rcases tell_spec steps with ⟨hsame, hdeliveries⟩ |
      ⟨head, told, waiting, outer, hbefore, _, _, hnew, htells⟩
    · exact ⟨hsame ▸ hended, by rw [deliveriesOf, hdeliveries, deliveriesOf]⟩
    · have hhead := hended head (hbefore ▸ List.mem_cons_self)
      refine ⟨fun emission hemission => ?_, by rw [htells, if_neg hhead.symm]⟩
      rw [hnew] at hemission
      rcases List.mem_cons.mp hemission with rfl | houter
      · exact hhead
      · exact hended emission (hbefore ▸ List.mem_cons_of_mem _ houter)
  · rw [after_snoc, deliveriesOf_perform_of_ne_tell _ hstep]
    refine ⟨?_, rfl⟩
    cases step with
    | tell => exact absurd rfl hstep
    | addChannel | shareChannel | subscribe | drop => exact hended
    | finish => exact fun emission hemission => hended emission (List.mem_of_mem_tail hemission)
    | start handle value => exact List.forall_mem_cons.mpr ⟨hnumber.ne', hended⟩

theorem deliveriesOf_of_ended {steps : List Step} {number : Nat}
    (hnumber : number < (after steps).begun)
    (hended : ∀ emission ∈ (after steps).emissions, emission.number ≠ number) (more : List Step) :
    (after (steps ++ more)).deliveriesOf number = (after steps).deliveriesOf number := by
  induction more generalizing steps with
  | nil => rw [List.append_nil]
  | cons step more ih =>
      obtain ⟨hstill, hsame⟩ := ended_snoc hnumber hended step
      have hbegun := hnumber.trans_le
        (mono_of_perform begun begun_le_perform (List.prefix_append steps [step]))
      rw [List.append_cons, ih hbegun hstill, hsame]

/-! Whole emissions. -/

theorem after_append (steps more : List Step) :
    after (steps ++ more) = more.foldl perform (after steps) :=
  List.foldl_append

/-- An emission that completes has told those it found, and whatever follows it tells no more. -/
theorem deliveriesOf_completed {earlier during : List Step} {handle : Nat} {value : Int}
    (hcompletes : (after earlier).Completes handle value during) (later : List Step) :
    (after (earlier ++ .start handle value :: during ++ .finish :: later)).deliveriesOf
        (after earlier).begun =
      ((after earlier).found ((after earlier).channelOf handle)).map
        ((after earlier).message (after earlier).begun value) := by
  obtain ⟨emission, outer, hemissions, hnumber, hwaiting⟩ := hcompletes
  let steps := earlier ++ .start handle value :: during
  have hnow : (after steps).emissions = [] ++ emission :: outer := by
    rw [after_append]
    exact hemissions
  have hstarted : earlier ++ [.start handle value] <+: steps := ⟨during, by simp [steps]⟩
  have hmember : emission ∈ (after steps).emissions := hnow ▸ List.mem_cons_self
  -- The emission is the one that began after `earlier`.
  obtain ⟨since, handle', hbegan⟩ := exists_began hnow
  obtain ⟨rfl, rfl, rfl⟩ :=
    start_unique hstarted hbegan.started (hnumber.symm.trans hbegan.number)
  -- It has told everybody.
  obtain ⟨told, hsnapshot, htold⟩ := hasTold hmember
  rw [hwaiting, List.append_nil] at hsnapshot
  -- It ends, and only those outside it go on.
  have hfinished : (after (steps ++ [.finish])).emissions = outer := by
    rw [after_snoc, perform, endEmission, hnow]
    rfl
  have hended : ∀ other ∈ (after (steps ++ [.finish])).emissions, other.number ≠ emission.number :=
    fun other hother => (number_lt_of_outside hnow (hfinished ▸ hother)).ne
  have hbegun : emission.number < (after (steps ++ [.finish])).begun := by
    rw [after_snoc]
    exact number_lt_begun hmember
  rw [List.append_cons, ← hnumber, deliveriesOf_of_ended hbegun hended later, after_snoc,
    deliveriesOf_perform_of_ne_tell _ Step.noConfusion, htold, hsnapshot, hbegan.snapshot]
  refine List.map_congr_left fun number hfound => message_after_append ?_ _ _ _
  exact (subscribed_of_mem_roster (List.mem_filter.mp hfound).1).lt

/-- Each emission tells its event to those it finds at its start, each once and in the order they
came, whatever the callbacks do meanwhile. It finds every subscriber of its channel whose guard is
held, and nobody who comes later. -/
theorem emission_tells_subscribers (earlier : List Step) (handle : Nat) (value : Int) :
    (∃ during, (after earlier).Completes handle value during ∧
      after (earlier ++ .start handle value :: during ++ [.finish]) =
        (after earlier).emit handle value) ∧
    (∀ during later, (after earlier).Completes handle value during →
      (after (earlier ++ .start handle value :: during ++ .finish :: later)).deliveriesOf
          (after earlier).begun =
        ((after earlier).found ((after earlier).channelOf handle)).map
          ((after earlier).message (after earlier).begun value)) ∧
    ((after earlier).found ((after earlier).channelOf handle)).Pairwise (· < ·) ∧
    (∀ number, (after earlier).isGuarded number = true →
      Subscribed earlier ((after earlier).channelOf handle) number →
      number ∈ (after earlier).found ((after earlier).channelOf handle)) ∧
    (∀ number ∈ (after earlier).found ((after earlier).channelOf handle),
      Subscribed earlier ((after earlier).channelOf handle) number ∧
        number < (after earlier).subscribers.size) := by
  refine ⟨exists_completes_emit earlier handle value,
    fun during later hcompletes => deliveriesOf_completed hcompletes later,
    (pairwise_roster earlier _).filter _, fun number hguarded hsubscribed => ?_,
    fun number hfound => ?_⟩
  · exact mem_found_iff.mpr ⟨mem_roster_of_guarded hguarded hsubscribed, .inl hguarded⟩
  · have hsubscribed := subscribed_of_mem_roster (mem_found_iff.mp hfound).1
    exact ⟨hsubscribed, hsubscribed.lt⟩

section Dismissal

/-- Of two subscribers the first drops the guard of the second, which lets a third come. -/
def guests : List Step :=
  [.addChannel, .subscribe 0 ⟨"usher", some (.drop "guest")⟩,
    .subscribe 0 ⟨"guest", some (.subscribe 0 "late")⟩]

/-- What happens between the start and the end of an emission to the two. -/
def dismissal : List Step :=
  [.tell, .drop "guest", .tell, .subscribe 0 ⟨"late", none⟩]

/-- The second is told all the same, and the third is not. -/
theorem dismissed_guest_told :
    (after guests).Completes 0 1 dismissal ∧
    (after (guests ++ .start 0 1 :: dismissal ++ [.finish])).deliveriesOf 0 =
      [⟨0, 0, "usher", 1⟩, ⟨0, 1, "guest", 1⟩] ∧
    (after guests).isGuarded 1 = true ∧ Subscribed guests 0 1 ∧ 1 ∈ (after guests).found 0 := by
  have htells := emission_tells_subscribers guests 0 1
  have hcompletes : (after guests).Completes 0 1 dismissal :=
    ⟨⟨0, 1, [0, 1], []⟩, [], by decide +kernel⟩
  have hguarded : (after guests).isGuarded 1 = true := by decide +kernel
  have hsubscribed : Subscribed guests 0 1 :=
    ⟨guests.take 2, 0, ⟨"guest", some (.subscribe 0 "late")⟩, List.prefix_rfl, by decide +kernel⟩
  refine ⟨hcompletes, ?_, hguarded, hsubscribed, htells.2.2.2.1 1 hguarded hsubscribed⟩
  exact (htells.2.1 dismissal [] hcompletes).trans (by decide +kernel)

end Dismissal

end RegionLayout.Switchboard
