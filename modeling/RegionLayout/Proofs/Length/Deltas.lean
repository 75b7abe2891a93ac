import RegionLayout.Proofs.Length.Binding
import RegionLayout.Proofs.Prerequisite.Revision

/-!
What a coordinate announces of its prerequisites adds up. It hears of its recipe alone. While a
length below the recipe announces, the recipe takes up what is visible to it and passes exactly that
on; when the recipe itself announces, the coordinate says the same, once for each time it listens;
and what lengths above the recipe announce does not reach it.
-/

namespace RegionLayout

/-- What a notice says that a coordinate announced of its prerequisites. -/
def Notice.delta? (owner : CoordinateId) : Notice → Option PrerequisiteChange
  | .sent (.prerequisites of change) => if of = owner then some change else none
  | _ => none

theorem Notice.delta?_of_isInvalidation {owner : CoordinateId} {notice : Notice}
    (hinvalidation : notice.isInvalidation = true) : notice.delta? owner = none := by
  unfold isInvalidation at hinvalidation
  split at hinvalidation
  all_goals first | rfl | contradiction

namespace Network

open CoordinateSet

/-- The changes that a coordinate announced of its prerequisites between two states of a network. -/
def deltas (before after : Network) (owner : CoordinateId) : List PrerequisiteChange :=
  (news before after).filterMap (Notice.delta? owner)

section Deltas

variable {before middle after : Network} {owner : CoordinateId}

theorem deltas_trans (hfirst : Recorded before middle) (hsecond : Recorded middle after) :
    deltas before after owner = deltas before middle owner ++ deltas middle after owner := by
  rw [deltas, news_trans hfirst hsecond, List.filterMap_append, deltas, deltas]

theorem deltas_of_journal (hjournal : after.journal = before.journal) :
    deltas before after owner = [] := by
  rw [deltas, news_of_journal hjournal, List.filterMap_nil]

theorem deltas_note (network : Network) (notice : Notice) :
    deltas network (network.note notice) owner = (notice.delta? owner).toList := by
  rw [deltas, news_note, List.filterMap_cons]
  cases notice.delta? owner <;> rfl

theorem deltas_ne_nil (hannounced : Announced before after .prerequisites owner) :
    deltas before after owner ≠ [] := by
  obtain ⟨notice, hnotice, htells⟩ := hannounced
  unfold Notice.tells at htells
  split at htells
  next => simp at htells
  next of change =>
    rw [Bool.and_eq_true, beq_iff_eq, beq_iff_eq] at htells
    refine List.ne_nil_of_mem (a := change) (List.mem_filterMap.mpr ⟨_, hnotice, ?_⟩)
    exact if_pos htells.2
  next => contradiction

end Deltas

variable (owner : CoordinateId) (recipe : LengthId)

/-- What a recipe reads is what its owner's changes make of what the recipe read. -/
structure Tracks (before after : Network) : Prop where
  recorded : Recorded before after
  followed : (ofList (before.reads recipe)).reviseAll (deltas before after owner) =
    ofList (after.reads recipe)

/-- The owner announces nothing, and its recipe reads what it read. -/
structure Bypasses (before after : Network) : Prop where
  recorded : Recorded before after
  deltas : deltas before after owner = []
  reads : after.reads recipe = before.reads recipe

/-- One length reads other coordinates, and nothing is announced of that yet. -/
structure Rereads (id : LengthId) (taken : List CoordinateId) (before after : Network) : Prop where
  journal : after.journal = before.journal
  reads : ∀ other, after.reads other = if other = id then taken else before.reads other

/-- What the owner hears while a length announces a change. If the length is not below its recipe
nothing but that change, and only if it is the recipe; else what its recipe announces in turn. -/
structure Hears (id : LengthId) (change : PrerequisiteChange) (before after : Network) : Prop where
  recorded : Recorded before after
  echoes : recipe.index ≤ id.index → after.reads recipe = before.reads recipe ∧
    ∀ delta ∈ deltas before after owner, id = recipe ∧ delta = change
  tracks : id ≠ recipe → (ofList (before.reads recipe)).reviseAll (deltas before after owner) =
    ofList (after.reads recipe)

/-- Among those who still listen, the owner listens to its recipe, and to no other length. -/
structure Attends (audience : Audience) (network : Network) : Prop where
  listens : ∃ wiring, audience.includes (.recipeOf owner wiring) = true ∧
    .recipeOf owner wiring ∈ network.listeners .prerequisites recipe
  only : ∀ id wiring, .recipeOf owner wiring ∈ network.listeners .prerequisites id →
    audience.includes (.recipeOf owner wiring) = true → id = recipe

variable {owner} {recipe} {audience : Audience} {network before middle after : Network}
  {id : LengthId} {change : PrerequisiteChange}

theorem Tracks.refl (network : Network) : Tracks owner recipe network network where
  recorded := .refl network
  followed := by
    rw [deltas_of_journal rfl]
    rfl

theorem Tracks.trans (hfirst : Tracks owner recipe before middle)
    (hsecond : Tracks owner recipe middle after) : Tracks owner recipe before after where
  recorded := hfirst.recorded.trans hsecond.recorded
  followed := by
    rw [deltas_trans hfirst.recorded hsecond.recorded, reviseAll_append, hfirst.followed,
      hsecond.followed]

namespace Bypasses

theorem of_formula (hrecorded : Recorded before after)
    (hdeltas : Network.deltas before after owner = [])
    (hformula : after.formula? recipe = before.formula? recipe) :
    Bypasses owner recipe before after :=
  ⟨hrecorded, hdeltas, by rw [Network.reads, hformula, Network.reads]⟩

theorem of_journal (hjournal : after.journal = before.journal)
    (hformula : after.formula? recipe = before.formula? recipe) :
    Bypasses owner recipe before after :=
  .of_formula (.of_journal hjournal) (deltas_of_journal hjournal) hformula

theorem refl (network : Network) : Bypasses owner recipe network network :=
  .of_journal rfl rfl

theorem trans (hfirst : Bypasses owner recipe before middle)
    (hsecond : Bypasses owner recipe middle after) : Bypasses owner recipe before after where
  recorded := hfirst.recorded.trans hsecond.recorded
  deltas := by
    rw [deltas_trans hfirst.recorded hsecond.recorded, hfirst.deltas, hsecond.deltas]
    rfl
  reads := hsecond.reads.trans hfirst.reads

theorem note (network : Network) {notice : Notice} (hother : notice.delta? owner = none) :
    Bypasses owner recipe network (network.note notice) :=
  .of_formula (.note network notice) (by rw [deltas_note, hother]; rfl) rfl

theorem tracks (hbypasses : Bypasses owner recipe before after) :
    Tracks owner recipe before after where
  recorded := hbypasses.recorded
  followed := by rw [hbypasses.deltas, hbypasses.reads]; rfl

end Bypasses

theorem Tracks.hears (htracks : Tracks owner recipe before after)
    (habove : recipe.index ≤ id.index → Bypasses owner recipe before after) :
    Hears owner recipe id change before after where
  recorded := htracks.recorded
  echoes hle := ⟨(habove hle).reads, by simp [(habove hle).deltas]⟩
  tracks _ := htracks.followed

theorem Bypasses.hears (hbypasses : Bypasses owner recipe before after) :
    Hears owner recipe id change before after :=
  hbypasses.tracks.hears fun _ => hbypasses

namespace Hears

theorem trans (hfirst : Hears owner recipe id change before middle)
    (hsecond : Hears owner recipe id change middle after) :
    Hears owner recipe id change before after where
  recorded := hfirst.recorded.trans hsecond.recorded
  echoes hle := by
    obtain ⟨hreads, hall⟩ := hfirst.echoes hle
    obtain ⟨hreads', hall'⟩ := hsecond.echoes hle
    rw [deltas_trans hfirst.recorded hsecond.recorded]
    exact ⟨hreads'.trans hreads, List.forall_mem_append.mpr ⟨hall, hall'⟩⟩
  tracks hne := by
    rw [deltas_trans hfirst.recorded hsecond.recorded, reviseAll_append, hfirst.tracks hne,
      hsecond.tracks hne]

/-- What a length above the recipe announces does not reach the owner. -/
theorem bypasses (hhears : Hears owner recipe id change before after)
    (hless : recipe.index < id.index) : Bypasses owner recipe before after := by
  have hne : id ≠ recipe := by
    rintro rfl
    exact Nat.lt_irrefl _ hless
  obtain ⟨hreads, hall⟩ := hhears.echoes (Nat.le_of_lt hless)
  exact ⟨hhears.recorded,
    List.eq_nil_iff_forall_not_mem.mpr fun delta hdelta => hne (hall delta hdelta).1, hreads⟩

/-- A recipe that announces exactly how it changed takes its owner along. -/
theorem followed {old : List CoordinateId} (hhears : Hears owner recipe recipe change before after)
    (hannounced : Announced before after .prerequisites owner)
    (hexact : change.Exact old (before.reads recipe)) :
    (ofList old).reviseAll (deltas before after owner) = ofList (after.reads recipe) := by
  obtain ⟨hreads, hall⟩ := hhears.echoes (Nat.le_refl _)
  rw [reviseAll_of_forall_eq (deltas_ne_nil hannounced) fun delta hdelta => (hall delta hdelta).2,
    revise_of_exact hexact, hreads]

end Hears

theorem Attends.follows (hattends : Attends owner recipe audience before)
    (hfollows : Follows audience before after) : Attends owner recipe audience after where
  listens := by
    obtain ⟨wiring, hincluded, hlistens⟩ := hattends.listens
    exact ⟨wiring, hincluded, (hfollows.mem_listeners hincluded).mpr hlistens⟩
  only id wiring hlistens hincluded :=
    hattends.only id wiring (hfollows.listed .prerequisites id hlistens) hincluded

theorem Attends.announced (hattends : Attends owner recipe audience before)
    (htold : Told audience before after .prerequisites recipe) :
    Announced before after .prerequisites owner := by
  obtain ⟨wiring, hincluded, hlistens⟩ := hattends.listens
  exact htold owner wiring hlistens hincluded

/-! A length that reads other coordinates. -/

theorem rereads_setFormula {old : Formula} (hformula : network.formula? id = some old)
    (new : Formula) : Rereads id new.prerequisites network (network.setFormula id new) :=
  ⟨rfl, reads_setFormula hformula⟩

namespace Rereads

variable {taken : List CoordinateId} (hrereads : Rereads id taken before middle)

include hrereads

theorem bypasses_of_ne (hne : id ≠ recipe) : Bypasses owner recipe before middle where
  recorded := .of_journal hrereads.journal
  deltas := deltas_of_journal hrereads.journal
  reads := by rw [hrereads.reads, if_neg (Ne.symm hne)]

theorem bypasses_of_eq (hsame : taken = before.reads id) : Bypasses owner recipe before middle where
  recorded := .of_journal hrereads.journal
  deltas := deltas_of_journal hrereads.journal
  reads := by
    rw [hrereads.reads, hsame]
    split
    next heq => rw [heq]
    next => rfl

/-- A length that then announces exactly how it changed takes the owner along, be it the recipe or
below it. -/
theorem tracks (hexact : change.Exact (before.reads id) taken)
    (hattends : Attends owner recipe audience middle)
    (htold : Told audience middle after .prerequisites id)
    (hhears : Hears owner recipe id change middle after) : Tracks owner recipe before after := by
  by_cases hrecipe : id = recipe
  · subst hrecipe
    have hrecorded : Recorded before middle := .of_journal hrereads.journal
    refine ⟨hrecorded.trans hhears.recorded, ?_⟩
    rw [deltas_trans hrecorded hhears.recorded, deltas_of_journal hrereads.journal,
      List.nil_append]
    refine hhears.followed (hattends.announced htold) ?_
    rwa [hrereads.reads, if_pos rfl]
  · have hfollowed : Tracks owner recipe middle after := ⟨hhears.recorded, hhears.tracks hrecipe⟩
    exact (hrereads.bypasses_of_ne hrecipe).tracks.trans hfollowed

end Rereads

/-! Announcements of changes. -/

/-- That the owner hears what it should of announcements of some depth. -/
def Carries (owner : CoordinateId) (recipe : LengthId) (audience : Audience) (depth : Nat) : Prop :=
  ∀ {id : LengthId} {network : Network} {change : PrerequisiteChange} {debts : List Debt},
    network.Laid audience → network.lengths.size ≤ depth + id.index →
      Ledger network audience
        (⟨id, (network.listeners .prerequisites id).filter audience.includes, change⟩ :: debts) →
      Attends owner recipe audience network →
        Hears owner recipe id change network
          (announcePrerequisites audience depth id change network)

section Hear

variable {depth : Nat} {left : List Listener} {debts : List Debt}
  (hcarries : Carries owner recipe audience depth) (hlaid : network.Laid audience)
  (hfuel : network.lengths.size ≤ depth + 1 + id.index)
  (hattends : Attends owner recipe audience network)

include hcarries hlaid hfuel hattends

theorem hears_passOn {compound : LengthId}
    (hlistens : .operandOf compound ∈ network.listeners .prerequisites id)
    (hincluded : audience.includes (.operandOf compound) = true)
    (hledger : Ledger network audience (⟨id, .operandOf compound :: left, change⟩ :: debts)) :
    Hears owner recipe id change network
      (hearPrerequisites audience depth id change network (.operandOf compound)) := by
  obtain ⟨shape, tally, hdelivery⟩ := hledger.exists_delivery hlaid hlistens hincluded
  have hless := hlaid.older _ _ hdelivery.operand
  have hvalid := hledger.valid compound shape tally hdelivery.formula
  have hexact := PrerequisiteTally.exact_visible hvalid (hledger.leads _ List.mem_cons_self)
    fun coordinate hremoved => hledger.count_pos hincluded hdelivery.formula hremoved
  have hrereads : Rereads compound (tally.apply change).2.members network _ :=
    rereads_setFormula hdelivery.formula (.compound shape (tally.apply change).2)
  have hfollows := hdelivery.follows
  have hread : network.reads compound = tally.members := reads_eq hdelivery.formula
  have hdelivered := hdelivery.ledger
  rw [← listeners_setFormula network compound compound .prerequisites
    (.compound shape (tally.apply change).2)] at hdelivered
  simp only [hearPrerequisites, passOn_compound hdelivery.formula]
  generalize network.setFormula compound (.compound shape (tally.apply change).2) = next
    at hfollows hrereads hdelivered ⊢
  split
  next hhidden =>
    have hsame := PrerequisiteTally.members_apply_of_isEmpty hhidden
    exact (hrereads.bypasses_of_eq (hsame.trans hread.symm)).hears
  next =>
    have hfuel' : next.lengths.size ≤ depth + compound.index := by
      rw [hfollows.size]
      omega
    have hattends' := hattends.follows hfollows
    have hhears := hcarries (hfollows.laid hlaid) hfuel' hdelivered hattends'
    have htold :=
      (reaches audience depth compound (hfollows.laid hlaid) hfuel' (tally.apply change).1).2
    rw [← hread] at hexact
    refine (hrereads.tracks hexact hattends' htold hhears).hears fun hle => ?_
    have habove : recipe.index < compound.index := hle.trans_lt hless
    have hne : compound ≠ recipe := by
      rintro rfl
      exact Nat.lt_irrefl _ habove
    exact (hrereads.bypasses_of_ne hne).trans (hhears.bypasses habove)

theorem hears_hearPrerequisites {listener : Listener}
    (hlistens : listener ∈ network.listeners .prerequisites id)
    (hincluded : audience.includes listener = true)
    (hledger : Ledger network audience (⟨id, listener :: left, change⟩ :: debts)) :
    Hears owner recipe id change network
      (hearPrerequisites audience depth id change network listener) := by
  cases listener with
  | watch number => exact (Bypasses.note network rfl).hears
  | operandOf compound =>
      exact hears_passOn hcarries hlaid hfuel hattends hlistens hincluded hledger
  | recipeOf coordinate wiring =>
      by_cases howner : coordinate = owner
      · subst howner
        obtain rfl := hattends.only id wiring hlistens hincluded
        have hdeltas : deltas network (network.send (.prerequisites coordinate change)) coordinate =
            [change] := by
          rw [send, deltas_note]
          simp [Notice.delta?]
        exact ⟨.note network _, fun _ => ⟨rfl, by simp [hearPrerequisites, hdeltas]⟩,
          fun hne => absurd rfl hne⟩
      · have hother : (Notice.sent (.prerequisites coordinate change)).delta? owner = none :=
          if_neg howner
        exact (Bypasses.note network hother).hears

end Hear

theorem carries (owner : CoordinateId) (recipe : LengthId) (audience : Audience) (depth : Nat) :
    Carries owner recipe audience depth := by
  induction depth with
  | zero => exact fun _ _ _ _ => (Bypasses.refl _).hears
  | succ depth ih =>
      intro id network change debts hlaid hfuel hledger hattends
      have hopened := relays_opened audience network .prerequisites id
        (.lengthPrerequisites id change)
      have hstruck : Bypasses owner recipe network (network.strike audience .prerequisites id) :=
        .of_journal rfl (formula?_strike network id recipe .prerequisites audience)
      have hstart : Hears owner recipe id change network
          (network.opened audience .prerequisites id (.lengthPrerequisites id change)) :=
        (hstruck.trans (.note _ rfl)).hears
      -- The owner keeps listening to its recipe all along.
      let r (first second : Network) : Prop := Attends owner recipe audience first →
        Hears owner recipe id change first second ∧ Attends owner recipe audience second
      have hannounced : r
          (network.opened audience .prerequisites id (.lengthPrerequisites id change))
          (announcePrerequisites audience (depth + 1) id change network) := by
        refine (announcePrerequisites_related (r := r) (pays audience depth)
          (fun state hstate => ⟨(Bypasses.refl state).hears, hstate⟩)
          (fun hfirst hsecond hstate => ?_)
          (fun hlaid hfuel hlistens hincluded hledger hstate => ?_) hlaid hfuel hledger).1
        · obtain ⟨hhears, hmiddle⟩ := hfirst hstate
          exact ⟨hhears.trans (hsecond hmiddle).1, (hsecond hmiddle).2⟩
        · have hnext := retallies_hearPrerequisites (reaches audience depth) hlaid hfuel change
            hlistens hincluded
          exact ⟨hears_hearPrerequisites ih hlaid hfuel hstate hlistens hincluded hledger,
            hstate.follows hnext.toFollows⟩
      exact hstart.trans (hannounced (hattends.follows hopened.toFollows)).1

theorem bypasses_invalidate (hbuilt : network.BuiltIn) (id : LengthId) :
    Bypasses owner recipe network (network.invalidate audience id) := by
  rw [invalidate, hbuilt.channelOf]
  exact announceInvalidated_related .refl .trans
    (fun network id => .of_journal rfl (formula?_strike network id recipe .invalidated audience))
    (fun network notice hinvalidation =>
      .note network (Notice.delta?_of_isInvalidation hinvalidation))
    _ id network

/-! Shifts of leaves. -/

/-- Whichever leaf shifts, the owner announces what that makes of its recipe. -/
theorem Shift.tracks (hshift : Shift audience before after) (hsound : before.Sound audience)
    (hattends : Attends owner recipe audience before) : Tracks owner recipe before after := by
  cases hshift with
  | @move id old new hformula hold hnew hquiet =>
      have hset : Follows audience before (before.setFormula id new) :=
        follows_setFormula before hformula (hnew.operands.trans hold.operands.symm) hnew.builtIn
      have hrereads : Rereads id new.prerequisites before _ := rereads_setFormula hformula new
      have hread : before.reads id = old.prerequisites := reads_eq hformula
      unfold announceMove
      dsimp only
      split
      next hempty =>
        refine ⟨.refl before, ?_⟩
        rw [deltas_of_journal hrereads.journal, reviseAll, List.foldl_nil, ofList_eq_iff]
        exact fun coordinate => (mem_reads_setFormula hformula hempty recipe coordinate).symm
      next =>
        have hlaid := hset.laid hsound.laid
        have hledger := ledger_setFormula hsound hformula hold hnew
        rw [← listeners_setFormula before id id .prerequisites new] at hledger
        have hattends' := hattends.follows hset
        have hfuel := Nat.le_add_right (before.setFormula id new).lengths.size id.index
        have hhears := carries owner recipe audience _ hlaid hfuel hledger hattends'
        obtain ⟨hretallies, htold⟩ := reaches audience _ id hlaid hfuel
          (.between old.prerequisites new.prerequisites)
        have hexact := PrerequisiteChange.exact_between old.prerequisites new.prerequisites
        rw [← hread] at hexact hhears hretallies htold ⊢
        rw [rewire, hlaid.builtIn.channelOf]
        exact (hrereads.tracks hexact hattends' htold hhears).trans
          (bypasses_invalidate (hretallies.builtIn hlaid.builtIn) id).tracks

theorem Shifts.tracks (hshifts : Shifts audience before after) (hsound : before.Sound audience)
    (hattends : Attends owner recipe audience before) : Tracks owner recipe before after := by
  have hchain := hshifts hsound
  clear hshifts
  induction hchain with
  | refl => exact .refl before
  | @tail middle last hbefore hshift ih =>
      obtain ⟨hheralds, hmiddle⟩ := honest_of_shifts hbefore hsound
      exact ih.trans (hshift.tracks hmiddle (hattends.follows hheralds.toFollows))

end Network

end RegionLayout
