import RegionLayout.Proofs.Length.Ledger

/-!
Changes unfold compound by compound. An announcement of a change of prerequisites runs in steps; in
each of them at most one compound takes up what an operand told it, and what it then announces is
exactly how its own prerequisites changed in that step.
-/

namespace RegionLayout

open Relation

namespace PrerequisiteChange

/-- A change says exactly how one list of coordinates came from another. -/
structure Exact (change : PrerequisiteChange) (before after : List CoordinateId) : Prop where
  removed : ∀ coordinate ∈ change.removed, coordinate ∈ before ∧ coordinate ∉ after
  added : ∀ coordinate ∈ change.added, coordinate ∉ before ∧ coordinate ∈ after
  kept : ∀ coordinate, coordinate ∉ change.removed → coordinate ∉ change.added →
    (coordinate ∈ after ↔ coordinate ∈ before)

theorem exact_between (old new : List CoordinateId) : (between old new).Exact old new where
  removed _ hremoved := mem_removed_between.mp hremoved
  added _ hadded := (mem_added_between.mp hadded).symm
  kept coordinate hremoved hadded := by
    rw [mem_removed_between, not_and, Classical.not_not] at hremoved
    rw [mem_added_between, not_and, Classical.not_not] at hadded
    exact ⟨hadded, hremoved⟩

structure Within (change origin : PrerequisiteChange) : Prop where
  added : change.added ⊆ origin.added
  removed : change.removed ⊆ origin.removed

theorem Within.refl (change : PrerequisiteChange) : change.Within change :=
  ⟨List.Subset.refl _, List.Subset.refl _⟩

theorem Within.trans {change middle origin : PrerequisiteChange} (hfirst : change.Within middle)
    (hsecond : middle.Within origin) : change.Within origin :=
  ⟨List.Subset.trans hfirst.added hsecond.added, List.Subset.trans hfirst.removed hsecond.removed⟩

end PrerequisiteChange

namespace PrerequisiteTally

variable {tally : PrerequisiteTally} {change : PrerequisiteChange} {reads : List CoordinateId}

theorem within_visible (hvalid : tally.Valid) (hleads : change.Leads reads) :
    (tally.apply change).1.Within change where
  added _ hadded := ((mem_visible_added hvalid hleads).mp hadded).1
  removed _ hremoved := ((mem_visible_removed hvalid hleads).mp hremoved).1

/-- What a tally lets through of a change is exactly what becomes of its members. -/
theorem exact_visible (hvalid : tally.Valid) (hleads : change.Leads reads)
    (hheld : ∀ coordinate ∈ change.removed, 0 < tally.count coordinate) :
    (tally.apply change).1.Exact tally.members (tally.apply change).2.members := by
  have hvisible := leads_visible hvalid hleads
  refine ⟨fun coordinate hremoved => ⟨?_, hvisible.removed coordinate hremoved⟩,
    fun coordinate hadded => ⟨?_, hvisible.added coordinate hadded⟩,
    fun coordinate hremoved hadded => ?_⟩
  · obtain ⟨_, hone⟩ := (mem_visible_removed hvalid hleads).mp hremoved
    rw [hvalid.mem_members_iff, hone]
    exact Nat.one_pos
  · obtain ⟨_, hzero⟩ := (mem_visible_added hvalid hleads).mp hadded
    exact hvalid.count_eq_zero_iff.mp hzero
  · have hweight := weight_visible hvalid hleads hheld coordinate
    rw [PrerequisiteChange.weight, List.count_eq_zero_of_not_mem hadded,
      List.count_eq_zero_of_not_mem hremoved, bit, bit] at hweight
    by_cases hin : coordinate ∈ tally.members <;>
      by_cases hstays : coordinate ∈ (tally.apply change).2.members <;>
        simp [hin, hstays] at hweight ⊢

end PrerequisiteTally

namespace Network

/-! Steps. -/

/-- Lengths stay as they are, up to what none of them announces. -/
structure Aside (before after : Network) : Prop extends Hushed before after where
  operands : ∀ id, id.index < before.lengths.size → after.operandsAt id = before.operandsAt id
  reads : ∀ id, id.index < before.lengths.size → ∀ coordinate,
    coordinate ∈ after.prerequisites id ↔ coordinate ∈ before.prerequisites id

/-- One length comes to read something else, and announces exactly that. What a compound gives up,
none of its operands reads any more. -/
structure Announces (id : LengthId) (change : PrerequisiteChange) (before after : Network) :
    Prop where
  recorded : Recorded before after
  news : news before after = [.sent (.lengthPrerequisites id change)]
  operands : ∀ other, after.operandsAt other = before.operandsAt other
  others : ∀ other, other ≠ id → after.prerequisites other = before.prerequisites other
  nonempty : change.isEmpty = false
  accurate : change.Exact (before.prerequisites id) (after.prerequisites id)
  released : ∀ coordinate ∈ change.removed, ∀ operand ∈ after.operandsAt id,
    coordinate ∉ after.prerequisites operand

inductive Step : Network → Network → Prop where
  | aside {before after : Network} (haside : Aside before after) : Step before after
  | announce {before after : Network} {id : LengthId} {change : PrerequisiteChange}
      (hannounces : Announces id change before after) : Step before after

theorem Step.recorded {before after : Network} (hstep : Step before after) :
    Recorded before after := by
  cases hstep with
  | aside haside => exact haside.recorded
  | announce hannounces => exact hannounces.recorded

/-- A network comes from another by steps in which lengths announce exactly how they change; so what
a length reads in between follows from what it read before and what was announced since. -/
def Unfolds : Network → Network → Prop :=
  ReflTransGen Step

section Unfolds

variable {before middle after : Network} {id : LengthId} {change : PrerequisiteChange}

theorem Unfolds.refl (network : Network) : Unfolds network network :=
  ReflTransGen.refl

theorem Unfolds.trans (hfirst : Unfolds before middle) (hsecond : Unfolds middle after) :
    Unfolds before after :=
  ReflTransGen.trans hfirst hsecond

theorem Aside.unfolds (haside : Aside before after) : Unfolds before after :=
  .single (.aside haside)

theorem Announces.unfolds (hannounces : Announces id change before after) : Unfolds before after :=
  .single (.announce hannounces)

theorem Unfolds.recorded (hunfolds : Unfolds before after) : Recorded before after := by
  induction hunfolds with
  | refl => exact .refl before
  | tail _ hstep ih => exact ih.trans hstep.recorded

/-- Whatever was announced was announced in one of the steps. -/
theorem Unfolds.exists_announces (hunfolds : Unfolds before after)
    (hnews : .sent (.lengthPrerequisites id change) ∈ Network.news before after) :
    ∃ first second, Unfolds before first ∧ Announces id change first second ∧
      Unfolds second after := by
  induction hunfolds with
  | refl =>
      rw [news_self] at hnews
      contradiction
  | @tail middle last hbefore hstep ih =>
      rw [news_trans (Unfolds.recorded hbefore) hstep.recorded, List.mem_append] at hnews
      rcases hnews with hold | hnew
      · obtain ⟨first, second, hfirst, hannounces, hsecond⟩ := ih hold
        exact ⟨first, second, hfirst, hannounces, hsecond.tail hstep⟩
      · cases hstep with
        | aside haside => exact absurd (haside.silent _ hnew) (Bool.noConfusion ·)
        | @announce other said hannounces =>
            rw [hannounces.news, List.mem_singleton] at hnew
            obtain ⟨rfl, rfl⟩ := Message.lengthPrerequisites.inj (Notice.sent.inj hnew)
            exact ⟨middle, last, hbefore, hannounces, .refl last⟩

theorem prerequisites_congr (hformula : ∀ id, after.formula? id = before.formula? id)
    (id : LengthId) : after.prerequisites id = before.prerequisites id := by
  simp only [prerequisites, channelOf, hformula]

theorem operandsAt_congr (hformula : ∀ id, after.formula? id = before.formula? id)
    (id : LengthId) : after.operandsAt id = before.operandsAt id := by
  rw [operandsAt, hformula, operandsAt]

theorem Hushed.aside (hhushed : Hushed before after)
    (hformula : ∀ id, after.formula? id = before.formula? id) : Aside before after where
  toHushed := hhushed
  operands id _ := operandsAt_congr hformula id
  reads id _ coordinate := by rw [prerequisites_congr hformula]

end Unfolds

/-! Announcements in progress all pass on one change. -/

/-- What announcements in progress pass on are parts of one change. -/
structure Stems (debts : List Debt) (origin : PrerequisiteChange) : Prop where
  apart : ∀ coordinate ∈ origin.removed, coordinate ∉ origin.added
  within : ∀ debt ∈ debts, debt.change.Within origin

section Stems

variable {network : Network} {audience : Audience} {debts : List Debt}
  {origin : PrerequisiteChange} {compound : LengthId} {coordinate : CoordinateId}

theorem Stems.pay {debt : Debt} (hstems : Stems (debt :: debts) origin) (left : List Listener) :
    Stems ({ debt with left } :: debts) origin :=
  ⟨hstems.apart, List.forall_mem_cons.mpr (List.forall_mem_cons.mp hstems.within)⟩

theorem Stems.push {debt inner : Debt} (hstems : Stems (debt :: debts) origin)
    (hwithin : inner.change.Within debt.change) : Stems (inner :: debt :: debts) origin :=
  ⟨hstems.apart, List.forall_mem_cons.mpr
    ⟨hwithin.trans (hstems.within debt List.mem_cons_self), hstems.within⟩⟩

/-- What is given up by one announcement is added by none. -/
theorem Stems.owed_nonpos (hstems : Stems debts origin) (hremoved : coordinate ∈ origin.removed) :
    owed debts compound coordinate ≤ 0 := by
  obtain ⟨hapart, hwithin⟩ := hstems
  induction debts with
  | nil => exact Int.le_refl 0
  | cons debt rest ih =>
      obtain ⟨hfirst, hrest⟩ := List.forall_mem_cons.mp hwithin
      have hkept : coordinate ∉ debt.change.added :=
        fun hadded => hapart coordinate hremoved (hfirst.added hadded)
      have howes : debt.owes compound coordinate ≤ 0 := by
        rw [Debt.owes, PrerequisiteChange.weight, List.count_eq_zero_of_not_mem hkept]
        exact Int.mul_nonpos_of_nonneg_of_nonpos (Int.natCast_nonneg _) (by omega)
      rw [owed_cons]
      have hothers := ih hrest
      omega

/-- Once a compound has let a coordinate go, none of its operands reads it. -/
theorem Ledger.not_mem_reads (hledger : Ledger network audience debts)
    (hheld : audience.includes (.operandOf compound) = true) {shape : Compound}
    {tally : PrerequisiteTally}
    (hformula : network.formula? compound = some (.compound shape tally))
    (hgone : coordinate ∉ tally.members) (howed : owed debts compound coordinate ≤ 0) :
    ∀ operand ∈ network.operandsAt compound, coordinate ∉ network.reads operand := by
  have hbalance := hledger.balanced compound hheld shape tally hformula coordinate
  rw [PrerequisiteTally.count_eq_zero_of_not_mem hgone] at hbalance
  have hnone : network.holders compound coordinate = 0 := by omega
  rw [holders, List.countP_eq_zero] at hnone
  simpa using hnone

end Stems

/-! A length that reads something else. -/

section Replace

variable {network : Network} {id : LengthId} {old new : Formula} (hbuilt : network.BuiltIn)
  (hformula : network.formula? id = some old) (hsame : new.operands = old.operands)
  (hkind : new.isBuiltIn = true)

include hbuilt hformula hsame hkind

theorem prerequisites_setFormula (other : LengthId) :
    (network.setFormula id new).prerequisites other =
      if other = id then new.prerequisites else network.prerequisites other := by
  have hset : Follows ⟨#[], #[], []⟩ network (network.setFormula id new) :=
    follows_setFormula network hformula hsame hkind
  rw [(hset.builtIn hbuilt).prerequisites, hbuilt.prerequisites, reads_setFormula hformula]

theorem aside_setFormula
    (hreads : ∀ coordinate, coordinate ∈ new.prerequisites ↔ coordinate ∈ old.prerequisites) :
    Aside network (network.setFormula id new) where
  toHushed := .of_journal rfl
  operands other _ := operandsAt_setFormula network new hformula hsame other
  reads other _ coordinate := by
    rw [prerequisites_setFormula hbuilt hformula hsame hkind]
    split
    next heq => rw [heq, hbuilt.prerequisites, reads_eq hformula, hreads]
    next => rfl

theorem announces_opened (audience : Audience) {change : PrerequisiteChange}
    (hmoves : change.isEmpty = false)
    (haccurate : change.Exact old.prerequisites new.prerequisites)
    (hreleased : ∀ coordinate ∈ change.removed, ∀ operand ∈ old.operands,
      coordinate ∉ (network.setFormula id new).prerequisites operand) :
    Announces id change network ((network.setFormula id new).opened audience .prerequisites id
      (.lengthPrerequisites id change)) := by
  have hopened := relays_opened audience (network.setFormula id new) .prerequisites id
    (.lengthPrerequisites id change)
  have hoperands := operandsAt_setFormula network new hformula hsame
  have hreads := prerequisites_setFormula hbuilt hformula hsame hkind
  refine ⟨hopened.recorded, news_note network _, fun other => ?_, fun other hother => ?_, hmoves,
    ?_, fun coordinate hremoved operand hmem => ?_⟩
  · exact (hopened.operands other).trans (hoperands other)
  · rw [prerequisites_congr hopened.formula, hreads, if_neg hother]
  · rwa [prerequisites_congr hopened.formula, hreads, if_pos rfl, hbuilt.prerequisites,
      reads_eq hformula]
  · rw [hopened.operands, hoperands, operandsAt, hformula, Option.map_some,
      Option.getD_some] at hmem
    rw [prerequisites_congr hopened.formula]
    exact hreleased coordinate hremoved operand hmem

end Replace

/-! One compound takes a change up. -/

theorem Ledger.announces {network : Network} {audience : Audience} {id compound : LengthId}
    {left : List Listener} {change origin : PrerequisiteChange} {debts : List Debt}
    {shape : Compound} {tally : PrerequisiteTally} (hlaid : network.Laid audience)
    (hledger : Ledger network audience (⟨id, .operandOf compound :: left, change⟩ :: debts))
    (hstems : Stems (⟨id, left, change⟩ :: debts) origin)
    (hheld : audience.includes (.operandOf compound) = true)
    (hoperand : id ∈ network.operandsAt compound)
    (hformula : network.formula? compound = some (.compound shape tally))
    (hvisible : (tally.apply change).1.isEmpty = false) :
    Announces compound (tally.apply change).1 network
      ((network.setFormula compound (.compound shape (tally.apply change).2)).opened audience
        .prerequisites compound (.lengthPrerequisites compound (tally.apply change).1)) := by
  have hvalid := hledger.valid compound shape tally hformula
  have hleads : change.Leads (network.reads id) := hledger.leads _ List.mem_cons_self
  have hwithin := PrerequisiteTally.within_visible hvalid hleads
  have hset : Follows audience network
      (network.setFormula compound (.compound shape (tally.apply change).2)) :=
    follows_setFormula network hformula rfl rfl
  have hdelivered := hledger.deliver hlaid hheld hoperand hformula
    (count_filter_includes hlaid .prerequisites compound)
  have hpushed : Stems (⟨compound, (network.listeners .prerequisites compound).filter
      audience.includes, (tally.apply change).1⟩ :: ⟨id, left, change⟩ :: debts) origin :=
    hstems.push hwithin
  have hnow : (network.setFormula compound (.compound shape (tally.apply change).2)).formula?
      compound = some (.compound shape (tally.apply change).2) := by
    rw [formula?_setFormula, if_pos rfl, hformula, Option.map_some]
  have hsame : (Formula.compound shape (tally.apply change).2).operands =
      (Formula.compound shape tally).operands := rfl
  refine announces_opened hlaid.builtIn hformula hsame rfl audience hvisible ?_
    fun coordinate hremoved operand hmem => ?_
  · exact PrerequisiteTally.exact_visible hvalid hleads
      fun coordinate hremoved => hledger.count_pos hheld hformula hremoved
  · -- What is given up here is nowhere about to be added, so nobody still counts on it.
    have hgone := (PrerequisiteTally.leads_visible hvalid hleads).removed coordinate hremoved
    have horigin := (hpushed.within _ List.mem_cons_self).removed hremoved
    rw [(hset.builtIn hlaid.builtIn).prerequisites]
    refine hdelivered.not_mem_reads hheld hnow hgone (hpushed.owed_nonpos horigin) operand ?_
    rw [operandsAt, hnow]
    exact hmem

/-! Whole announcements. -/

/-- That announcements of some depth unfold once they have begun. -/
def Unfurls (audience : Audience) (depth : Nat) : Prop :=
  ∀ {id : LengthId} {network : Network} {change origin : PrerequisiteChange} {debts : List Debt},
    network.Laid audience → id.index < network.lengths.size →
      network.lengths.size ≤ depth + id.index →
        Ledger network audience
          (⟨id, (network.listeners .prerequisites id).filter audience.includes, change⟩ :: debts) →
        Stems (⟨id, (network.listeners .prerequisites id).filter audience.includes, change⟩ ::
          debts) origin →
        Unfolds (network.opened audience .prerequisites id (.lengthPrerequisites id change))
          (announcePrerequisites audience depth id change network)

theorem unfolds_hearPrerequisites {audience : Audience} {depth : Nat}
    (hunfurls : Unfurls audience depth) {network : Network} {id : LengthId}
    {change origin : PrerequisiteChange} {listener : Listener} {left : List Listener}
    {debts : List Debt} (hlaid : network.Laid audience)
    (hfuel : network.lengths.size ≤ depth + 1 + id.index)
    (hlistens : listener ∈ network.listeners .prerequisites id)
    (hincluded : audience.includes listener = true)
    (hledger : Ledger network audience (⟨id, listener :: left, change⟩ :: debts))
    (hstems : Stems (⟨id, listener :: left, change⟩ :: debts) origin) :
    Unfolds network (hearPrerequisites audience depth id change network listener) := by
  cases listener with
  | recipeOf coordinate wiring => exact ((Hushed.note network rfl).aside fun _ => rfl).unfolds
  | watch number => exact ((Hushed.note network rfl).aside fun _ => rfl).unfolds
  | operandOf compound =>
      obtain ⟨shape, tally, hdelivery⟩ := hledger.exists_delivery hlaid hlistens hincluded
      have hless := hlaid.older _ _ hdelivery.operand
      have hleads : change.Leads (network.reads id) := hledger.leads _ List.mem_cons_self
      have hwithin := PrerequisiteTally.within_visible
        (hledger.valid compound shape tally hdelivery.formula) hleads
      have hpaid : Stems (⟨id, left, change⟩ :: debts) origin := hstems.pay left
      simp only [hearPrerequisites, passOn_compound hdelivery.formula]
      split
      next hhidden =>
        have hsame : (Formula.compound shape (tally.apply change).2).operands =
            (Formula.compound shape tally).operands := rfl
        refine (aside_setFormula hlaid.builtIn hdelivery.formula hsame rfl
          fun coordinate => ?_).unfolds
        simp only [Formula.prerequisites, PrerequisiteTally.members_apply_of_isEmpty hhidden]
      next hvisible =>
        have hannounces := hledger.announces hlaid hpaid hincluded hdelivery.operand
          hdelivery.formula (Bool.eq_false_iff.mpr hvisible)
        have hlt : compound.index < (network.setFormula compound
            (.compound shape (tally.apply change).2)).lengths.size := by
          rw [hdelivery.follows.size]
          exact hlaid.bounded compound hincluded
        have hdelivered := hdelivery.ledger
        rw [← listeners_setFormula network compound compound .prerequisites
          (.compound shape (tally.apply change).2)] at hdelivered
        exact hannounces.unfolds.trans (hunfurls (hdelivery.follows.laid hlaid) hlt
          (by rw [hdelivery.follows.size]; omega) hdelivered (hpaid.push hwithin))

theorem unfurls (audience : Audience) (depth : Nat) : Unfurls audience depth := by
  induction depth with
  | zero =>
      intro id network change origin debts hlaid hlt hfuel hledger hstems
      omega
  | succ depth ih =>
      intro id network change origin debts hlaid hlt hfuel hledger hstems
      exact (announcePrerequisites_related (pays audience depth) .refl .trans
        (fun hlaid hfuel hlistens hincluded hledger =>
          unfolds_hearPrerequisites ih hlaid hfuel hlistens hincluded hledger (hstems.pay _))
        hlaid hfuel hledger).1

/-! What leaves do. -/

theorem unfolds_invalidate (network : Network) (audience : Audience) (id : LengthId) :
    Unfolds network (network.invalidate audience id) :=
  ((hushed_announceInvalidated audience _ _ network).aside
    (relays_announceInvalidated audience _ _ network).formula).unfolds

/-- A leaf that reads something else announces it, and all above it follow. -/
theorem Ledger.unfolds_rewire {network : Network} {audience : Audience} {id : LengthId}
    {old new : Formula} (hbuilt : network.BuiltIn) (hformula : network.formula? id = some old)
    (hold : old.operands = []) (hnew : new.operands = [])
    (hlaid : (network.setFormula id new).Laid audience)
    (hledger : Ledger (network.setFormula id new) audience
      [⟨id, ((network.setFormula id new).listeners .prerequisites id).filter audience.includes,
        .between old.prerequisites new.prerequisites⟩])
    (hmoves : (PrerequisiteChange.between old.prerequisites new.prerequisites).isEmpty = false) :
    Unfolds network ((network.setFormula id new).rewire audience id
      (.between old.prerequisites new.prerequisites)) := by
  have hleads := hledger.leads _ List.mem_cons_self
  have hkind : new.isBuiltIn = true := hlaid.builtIn id new (by
    rw [formula?_setFormula, if_pos rfl, hformula, Option.map_some])
  have hannounces := announces_opened hbuilt hformula (hnew.trans hold.symm) hkind audience hmoves
    (PrerequisiteChange.exact_between old.prerequisites new.prerequisites) (by simp [hold])
  have hlt : id.index < (network.setFormula id new).lengths.size := by
    rw [size_setFormula]
    exact formula?_eq_some_lt hformula
  rw [rewire, hlaid.builtIn.channelOf]
  exact hannounces.unfolds.trans (unfurls audience _ hlaid hlt (Nat.le_add_right _ id.index) hledger
    ⟨fun _ => hleads.apart, List.forall_mem_singleton.mpr (.refl _)⟩)

end Network

end RegionLayout
