import Mathlib.Algebra.BigOperators.Group.List.Basic
import Mathlib.Algebra.GroupWithZero.Nat
import Mathlib.Algebra.Ring.Int.Defs
import Mathlib.Tactic.SplitIfs
import RegionLayout.Proofs.Length.Emission

/-!
Tallies are exact. While an announcement is on its way, a compound's count of a coordinate and what
is still owed to it together are the number of its operands that read the coordinate; so no operand
takes away what it never gave, and when nothing is owed any more the count is exact.
-/

namespace RegionLayout

/-- A change says truly how a list of coordinates came to be what it is. -/
structure PrerequisiteChange.Leads (change : PrerequisiteChange) (reads : List CoordinateId) :
    Prop where
  added_nodup : change.added.Nodup
  removed_nodup : change.removed.Nodup
  added : ∀ coordinate ∈ change.added, coordinate ∈ reads
  removed : ∀ coordinate ∈ change.removed, coordinate ∉ reads

theorem PrerequisiteChange.Leads.apart {change : PrerequisiteChange} {reads : List CoordinateId}
    (hleads : change.Leads reads) {coordinate : CoordinateId}
    (hremoved : coordinate ∈ change.removed) : coordinate ∉ change.added :=
  fun hadded => hleads.removed coordinate hremoved (hleads.added coordinate hadded)

/-- By how much a change moves the number of those who read a coordinate. -/
def PrerequisiteChange.weight (change : PrerequisiteChange) (coordinate : CoordinateId) : Int :=
  change.added.count coordinate - change.removed.count coordinate

def bit (proposition : Prop) [Decidable proposition] : Int :=
  if proposition then 1 else 0

theorem count_eq_bit {coordinates : List CoordinateId} (hnodup : coordinates.Nodup)
    (coordinate : CoordinateId) :
    (coordinates.count coordinate : Int) = bit (coordinate ∈ coordinates) := by
  unfold bit
  split
  next hmem => rw [List.count_eq_one_of_mem hnodup hmem, Int.natCast_one]
  next hmem => rw [List.count_eq_zero_of_not_mem hmem, Int.natCast_zero]

theorem PrerequisiteChange.leads_between {old new : List CoordinateId} (hold : old.Nodup)
    (hnew : new.Nodup) : (between old new).Leads new where
  added_nodup := hnew.filter _
  removed_nodup := hold.filter _
  added _ hmem := (mem_added_between.mp hmem).1
  removed _ hmem := (mem_removed_between.mp hmem).2

theorem PrerequisiteChange.weight_between {old new : List CoordinateId} (hold : old.Nodup)
    (hnew : new.Nodup) (coordinate : CoordinateId) :
    (between old new).weight coordinate = bit (coordinate ∈ new) - bit (coordinate ∈ old) := by
  have hleads := leads_between hold hnew
  rw [weight, count_eq_bit hleads.added_nodup, count_eq_bit hleads.removed_nodup]
  simp only [bit, mem_added_between, mem_removed_between]
  by_cases hin : coordinate ∈ new <;> by_cases hwas : coordinate ∈ old <;> simp [hin, hwas]

/-! A change as a tally takes it up. -/

namespace PrerequisiteTally

variable {tally : PrerequisiteTally} {change : PrerequisiteChange} {reads : List CoordinateId}

theorem count_apply_eq (hleads : change.Leads reads)
    (hheld : ∀ coordinate ∈ change.removed, 0 < tally.count coordinate)
    (coordinate : CoordinateId) :
    ((tally.apply change).2.count coordinate : Int) =
      tally.count coordinate + change.weight coordinate := by
  have hle : change.removed.count coordinate ≤ tally.count coordinate := by
    by_cases hmem : coordinate ∈ change.removed
    · rw [List.count_eq_one_of_mem hleads.removed_nodup hmem]
      exact hheld coordinate hmem
    · rw [List.count_eq_zero_of_not_mem hmem]
      exact Nat.zero_le _
  rw [count_apply, PrerequisiteChange.weight]
  omega

theorem mem_visible_removed (hvalid : tally.Valid) (hleads : change.Leads reads)
    {coordinate : CoordinateId} : coordinate ∈ (tally.apply change).1.removed ↔
      coordinate ∈ change.removed ∧ tally.count coordinate = 1 := by
  simp only [apply, fst_releaseAll hvalid hleads.removed_nodup, List.mem_filter, decide_eq_true_eq]

theorem mem_visible_added (hvalid : tally.Valid) (hleads : change.Leads reads)
    {coordinate : CoordinateId} : coordinate ∈ (tally.apply change).1.added ↔
      coordinate ∈ change.added ∧ tally.count coordinate = 0 := by
  simp only [apply, fst_acquireAll hleads.added_nodup, List.mem_filter, decide_eq_true_eq,
    ← hvalid.releaseAll.count_eq_zero_iff, count_releaseAll]
  refine and_congr_right fun hadded => ?_
  have hkept : coordinate ∉ change.removed := fun hremoved => hleads.apart hremoved hadded
  rw [List.count_eq_zero_of_not_mem hkept, Nat.sub_zero]

/-- What a tally lets through leads to its new members. -/
theorem leads_visible (hvalid : tally.Valid) (hleads : change.Leads reads) :
    (tally.apply change).1.Leads (tally.apply change).2.members where
  added_nodup := by
    simp only [apply, fst_acquireAll hleads.added_nodup]
    exact hleads.added_nodup.filter _
  removed_nodup := by
    simp only [apply, fst_releaseAll hvalid hleads.removed_nodup]
    exact hleads.removed_nodup.filter _
  added coordinate hmem := by
    have hadded := ((mem_visible_added hvalid hleads).mp hmem).1
    rw [(hvalid.apply change).mem_members_iff, count_apply,
      List.count_eq_one_of_mem hleads.added_nodup hadded]
    omega
  removed coordinate hmem := by
    obtain ⟨hremoved, hone⟩ := (mem_visible_removed hvalid hleads).mp hmem
    rw [← (hvalid.apply change).count_eq_zero_iff, count_apply, hone,
      List.count_eq_one_of_mem hleads.removed_nodup hremoved,
      List.count_eq_zero_of_not_mem (hleads.apart hremoved)]

theorem weight_visible (hvalid : tally.Valid) (hleads : change.Leads reads)
    (hheld : ∀ coordinate ∈ change.removed, 0 < tally.count coordinate)
    (coordinate : CoordinateId) : (tally.apply change).1.weight coordinate =
      bit (coordinate ∈ (tally.apply change).2.members) - bit (coordinate ∈ tally.members) := by
  have hvisible := leads_visible hvalid hleads
  have hcount := count_apply_eq hleads hheld coordinate
  rw [PrerequisiteChange.weight, count_eq_bit hleads.added_nodup,
    count_eq_bit hleads.removed_nodup] at hcount
  rw [PrerequisiteChange.weight, count_eq_bit hvisible.added_nodup,
    count_eq_bit hvisible.removed_nodup]
  simp only [bit, mem_visible_added hvalid hleads, mem_visible_removed hvalid hleads,
    hvalid.mem_members_iff, (hvalid.apply change).mem_members_iff] at hcount ⊢
  have hapart : coordinate ∈ change.added → coordinate ∉ change.removed :=
    fun hadded hremoved => hleads.apart hremoved hadded
  by_cases hadded : coordinate ∈ change.added
  · simp only [hadded, hapart hadded, true_and, false_and, if_true, if_false] at hcount ⊢
    split_ifs <;> omega
  · by_cases hremoved : coordinate ∈ change.removed
    · have hpositive := hheld coordinate hremoved
      simp only [hadded, hremoved, true_and, false_and, if_true, if_false] at hcount ⊢
      split_ifs <;> omega
    · simp only [hadded, hremoved, false_and, if_false] at hcount ⊢
      split_ifs <;> omega

end PrerequisiteTally

/-! Sums over lists. -/

theorem sum_count_cons {α : Type} [DecidableEq α] (ids : List α) (first : α) (rest : List α) :
    (ids.map fun id => (first :: rest).count id).sum =
      (ids.map fun id => rest.count id).sum + ids.count first := by
  induction ids with
  | nil => rfl
  | cons id ids ih =>
      rw [List.map_cons, List.sum_cons, ih, List.map_cons, List.sum_cons, List.count_cons,
        List.count_cons]
      simp only [beq_iff_eq, eq_comm (a := first)]
      omega

theorem sum_count_le_countP {α : Type} [DecidableEq α] {p : α → Bool} {ids : List α}
    (hnodup : ids.Nodup) (hall : ∀ id ∈ ids, p id = true) (items : List α) :
    (ids.map fun id => items.count id).sum ≤ items.countP p := by
  induction items with
  | nil => simp
  | cons first rest ih =>
      rw [sum_count_cons, List.countP_cons]
      by_cases hmem : first ∈ ids
      · rw [List.count_eq_one_of_mem hnodup hmem, if_pos (hall first hmem)]
        omega
      · rw [List.count_eq_zero_of_not_mem hmem]
        omega

theorem countP_update {α : Type} [DecidableEq α] {p q : α → Bool} {changed : α}
    (hsame : ∀ item, item ≠ changed → q item = p item) (items : List α) :
    (items.countP q : Int) = items.countP p +
      items.count changed * (bit (q changed = true) - bit (p changed = true)) := by
  induction items with
  | nil => simp
  | cons first rest ih =>
      rw [List.countP_cons, List.countP_cons, List.count_cons]
      by_cases heq : first = changed
      · subst heq
        simp only [bit, beq_self_eq_true, if_true] at ih ⊢
        push_cast
        rw [ih]
        split_ifs <;> omega
      · rw [hsame first heq]
        simp only [beq_iff_eq, heq, if_false, Nat.add_zero]
        push_cast
        rw [ih]
        omega

namespace Network

/-! What announcements in progress still owe. -/

/-- An announcement in progress, with the listeners it has still to reach. -/
structure Debt where
  of : LengthId
  left : List Listener
  change : PrerequisiteChange

/-- How far a debt moves a compound's count of a coordinate once it is paid. -/
def Debt.owes (debt : Debt) (compound : LengthId) (coordinate : CoordinateId) : Int :=
  debt.left.count (.operandOf compound) * debt.change.weight coordinate

def owed (debts : List Debt) (compound : LengthId) (coordinate : CoordinateId) : Int :=
  (debts.map fun debt => debt.owes compound coordinate).sum

/-- How many operands of a compound read a coordinate. -/
def holders (network : Network) (compound : LengthId) (coordinate : CoordinateId) : Nat :=
  (network.operandsAt compound).countP fun operand => decide (coordinate ∈ network.reads operand)

def Balanced (network : Network) (debts : List Debt) (compound : LengthId) : Prop :=
  ∀ shape tally, network.formula? compound = some (.compound shape tally) → ∀ coordinate,
    tally.count coordinate + owed debts compound coordinate = network.holders compound coordinate

/-- The debts run from the innermost announcement to the outermost, each is true of the length it is
about, and nobody is owed more than it listens for. -/
structure Books (network : Network) (audience : Audience) (debts : List Debt) : Prop where
  nodup : ∀ id, (network.reads id).Nodup
  valid : ∀ id shape tally, network.formula? id = some (.compound shape tally) → tally.Valid
  descending : debts.Pairwise fun inner outer => outer.of.index < inner.of.index
  leads : ∀ debt ∈ debts, debt.change.Leads (network.reads debt.of)
  bounded : ∀ debt ∈ debts, ∀ compound, audience.includes (.operandOf compound) = true →
    debt.left.count (.operandOf compound) ≤ (network.operandsAt compound).count debt.of

/-- The books of a network in which every compound in use is balanced. -/
structure Ledger (network : Network) (audience : Audience) (debts : List Debt) : Prop
    extends Books network audience debts where
  balanced : ∀ compound, audience.includes (.operandOf compound) = true →
    network.Balanced debts compound

theorem Books.tail {network : Network} {audience : Audience} {debt : Debt} {debts : List Debt}
    (hbooks : Books network audience (debt :: debts)) : Books network audience debts where
  nodup := hbooks.nodup
  valid := hbooks.valid
  descending := (List.pairwise_cons.mp hbooks.descending).2
  leads := (List.forall_mem_cons.mp hbooks.leads).2
  bounded := (List.forall_mem_cons.mp hbooks.bounded).2

theorem owed_cons (debt : Debt) (debts : List Debt) (compound : LengthId)
    (coordinate : CoordinateId) : owed (debt :: debts) compound coordinate =
      debt.owes compound coordinate + owed debts compound coordinate :=
  List.sum_cons

section Reach

variable {network : Network} {audience : Audience} {id compound : LengthId} {listener : Listener}
  {left : List Listener} {change : PrerequisiteChange} {debts : List Debt}

theorem Books.reach
    (hbooks : Books network audience (⟨id, listener :: left, change⟩ :: debts)) :
    Books network audience (⟨id, left, change⟩ :: debts) where
  nodup := hbooks.nodup
  valid := hbooks.valid
  descending := List.pairwise_cons.mpr (List.pairwise_cons.mp hbooks.descending)
  leads := List.forall_mem_cons.mpr (List.forall_mem_cons.mp hbooks.leads)
  bounded := by
    obtain ⟨hfirst, hrest⟩ := List.forall_mem_cons.mp hbooks.bounded
    refine List.forall_mem_cons.mpr ⟨fun compound hheld => ?_, hrest⟩
    exact List.count_le_count_cons.trans (hfirst compound hheld)

/-- To reach a listener makes no difference to anybody else. -/
theorem Balanced.reach
    (hbalanced : network.Balanced (⟨id, listener :: left, change⟩ :: debts) compound)
    (hother : listener ≠ .operandOf compound) :
    network.Balanced (⟨id, left, change⟩ :: debts) compound := by
  intro shape tally hformula coordinate
  have hbalance := hbalanced shape tally hformula coordinate
  rw [owed_cons, Debt.owes, List.count_cons_of_ne hother] at hbalance
  rw [owed_cons, Debt.owes]
  exact hbalance

theorem owed_le_sum {coordinate : CoordinateId} {adds : Debt → Bool} {bound : LengthId → Nat}
    (howes : ∀ debt ∈ debts, debt.owes compound coordinate ≤
      if adds debt then (bound debt.of : Int) else 0) :
    owed debts compound coordinate ≤ ((((debts.filter adds).map (·.of)).map bound).sum : Nat) := by
  induction debts with
  | nil => exact Int.le_refl _
  | cons debt rest ih =>
      obtain ⟨hfirst, hothers⟩ := List.forall_mem_cons.mp howes
      have hrest := ih hothers
      rw [owed_cons, List.filter_cons]
      split at hfirst
      next hadds =>
        rw [if_pos hadds, List.map_cons, List.map_cons, List.sum_cons, Int.natCast_add]
        omega
      next hadds =>
        rw [if_neg hadds]
        omega

end Reach

namespace Ledger

variable {network after : Network} {audience : Audience} {id compound : LengthId}
  {listener : Listener} {left : List Listener} {change : PrerequisiteChange} {debts : List Debt}

theorem of_formula (hledger : Ledger network audience debts)
    (hformula : ∀ id, after.formula? id = network.formula? id) :
    Ledger after audience debts := by
  have hreads : after.reads = network.reads := by
    funext id
    rw [reads, hformula, reads]
  have hoperands : after.operandsAt = network.operandsAt := by
    funext id
    rw [operandsAt, hformula, operandsAt]
  refine ⟨⟨hreads ▸ hledger.nodup, fun id shape tally hcompound => ?_, hledger.descending,
    hreads ▸ hledger.leads, hoperands ▸ hledger.bounded⟩, fun compound hheld shape tally hcompound
      coordinate => ?_⟩
  · exact hledger.valid id shape tally (hformula id ▸ hcompound)
  · rw [holders, hoperands, hreads]
    exact hledger.balanced compound hheld shape tally (hformula compound ▸ hcompound) coordinate

theorem relays (hledger : Ledger network audience debts) (hrelays : Relays audience network after) :
    Ledger after audience debts :=
  hledger.of_formula hrelays.formula

/-- A debt to whom it makes no difference is paid. -/
theorem pay (hledger : Ledger network audience (⟨id, listener :: left, change⟩ :: debts))
    (hother : ∀ compound, audience.includes (.operandOf compound) = true →
      listener ≠ .operandOf compound) :
    Ledger network audience (⟨id, left, change⟩ :: debts) where
  toBooks := hledger.toBooks.reach
  balanced compound hheld := (hledger.balanced compound hheld).reach (hother compound hheld)

theorem forget {debt : Debt} (hledger : Ledger network audience (debt :: debts))
    (hnothing : ∀ compound coordinate, audience.includes (.operandOf compound) = true →
      debt.owes compound coordinate = 0) :
    Ledger network audience debts := by
  refine ⟨hledger.toBooks.tail, fun compound hheld shape tally hformula coordinate => ?_⟩
  have hbalance := hledger.balanced compound hheld shape tally hformula coordinate
  rwa [owed_cons, hnothing compound coordinate hheld, zero_add] at hbalance

theorem owes_le (hbooks : Books network audience debts) {debt : Debt} (hdebt : debt ∈ debts)
    (hheld : audience.includes (.operandOf compound) = true) (coordinate : CoordinateId) :
    debt.owes compound coordinate ≤ if decide (coordinate ∈ debt.change.added) then
      ((network.operandsAt compound).count debt.of : Int) else 0 := by
  have hle := hbooks.bounded debt hdebt compound hheld
  have hlead := hbooks.leads debt hdebt
  rw [Debt.owes, PrerequisiteChange.weight, count_eq_bit hlead.added_nodup,
    count_eq_bit hlead.removed_nodup]
  simp only [bit, decide_eq_true_eq]
  split_ifs <;> omega

theorem owed_le_holders (hbooks : Books network audience debts)
    (hheld : audience.includes (.operandOf compound) = true) (coordinate : CoordinateId) :
    owed debts compound coordinate ≤ network.holders compound coordinate := by
  -- Who adds the coordinate reads it, and owes no more than once for each mention.
  let adds (debt : Debt) : Bool := decide (coordinate ∈ debt.change.added)
  have hdistinct : ((debts.filter adds).map (·.of)).Nodup := by
    refine List.pairwise_map.mpr ((hbooks.descending.filter _).imp ?_)
    intro inner outer hless heq
    rw [heq] at hless
    exact Nat.lt_irrefl _ hless
  have hreads : ∀ operand ∈ (debts.filter adds).map (·.of),
      decide (coordinate ∈ network.reads operand) = true := by
    intro operand hmem
    obtain ⟨debt, hdebt, rfl⟩ := List.mem_map.mp hmem
    rw [List.mem_filter, decide_eq_true_eq] at hdebt
    exact decide_eq_true ((hbooks.leads debt hdebt.1).added coordinate hdebt.2)
  have hsum := sum_count_le_countP hdistinct hreads (network.operandsAt compound)
  have howed : owed debts compound coordinate ≤
      ((((debts.filter adds).map (·.of)).map fun id =>
        (network.operandsAt compound).count id).sum : Nat) :=
    owed_le_sum fun debt hdebt => owes_le hbooks hdebt hheld coordinate
  exact Int.le_trans howed (Int.ofNat_le.mpr hsum)

/-- No operand takes away what it did not give: what a debt removes from a compound, the compound
still counts. -/
theorem count_pos
    (hledger : Ledger network audience (⟨id, .operandOf compound :: left, change⟩ :: debts))
    (hheld : audience.includes (.operandOf compound) = true) {shape : Compound}
    {tally : PrerequisiteTally}
    (hformula : network.formula? compound = some (.compound shape tally))
    {coordinate : CoordinateId} (hremoved : coordinate ∈ change.removed) :
    0 < tally.count coordinate := by
  have hbalance := hledger.balanced compound hheld shape tally hformula coordinate
  have hlead := hledger.leads _ List.mem_cons_self
  have hkept : coordinate ∉ change.added := hlead.apart hremoved
  have hweight : change.weight coordinate = -1 := by
    rw [PrerequisiteChange.weight, count_eq_bit hlead.added_nodup,
      count_eq_bit hlead.removed_nodup]
    simp [bit, hkept, hremoved]
  have hrest : owed debts compound coordinate ≤ network.holders compound coordinate :=
    owed_le_holders hledger.toBooks.tail hheld coordinate
  rw [owed_cons, Debt.owes, hweight, List.count_cons_self] at hbalance
  push_cast at hbalance
  omega

end Ledger

/-! A length that reads something else. -/

section Replace

variable {network : Network} {audience : Audience} {id compound : LengthId} {old new : Formula}
  {left : List Listener} {change : PrerequisiteChange} {debts : List Debt}

theorem reads_setFormula (hformula : network.formula? id = some old) (other : LengthId) :
    (network.setFormula id new).reads other =
      if other = id then new.prerequisites else network.reads other := by
  rw [reads, formula?_setFormula, reads]
  split
  next heq => rw [heq, hformula]; rfl
  next => rfl

theorem reads_eq (hformula : network.formula? id = some old) :
    network.reads id = old.prerequisites := by
  rw [reads, hformula]
  rfl

theorem holders_setFormula (hformula : network.formula? id = some old)
    (hsame : new.operands = old.operands) (coordinate : CoordinateId) :
    ((network.setFormula id new).holders compound coordinate : Int) =
      network.holders compound coordinate + (network.operandsAt compound).count id *
        (bit (coordinate ∈ new.prerequisites) - bit (coordinate ∈ old.prerequisites)) := by
  have hothers : ∀ operand, operand ≠ id →
      decide (coordinate ∈ (network.setFormula id new).reads operand) =
        decide (coordinate ∈ network.reads operand) := by
    intro operand hne
    rw [reads_setFormula hformula, if_neg hne]
  rw [holders, operandsAt_setFormula network new hformula hsame, countP_update hothers]
  simp only [decide_eq_true_eq, reads_setFormula hformula, if_pos, reads_eq hformula]
  rfl

/-- Whoever else listens to the length is owed the difference. -/
theorem Balanced.setFormula (hbalanced : network.Balanced debts compound) (hne : compound ≠ id)
    (hformula : network.formula? id = some old) (hsame : new.operands = old.operands)
    (hweight : ∀ coordinate, change.weight coordinate =
      bit (coordinate ∈ new.prerequisites) - bit (coordinate ∈ old.prerequisites))
    (hleft : left.count (.operandOf compound) = (network.operandsAt compound).count id) :
    (network.setFormula id new).Balanced (⟨id, left, change⟩ :: debts) compound := by
  intro shape tally hcompound coordinate
  rw [formula?_setFormula, if_neg hne] at hcompound
  have hbalance := hbalanced shape tally hcompound coordinate
  rw [holders_setFormula hformula hsame, owed_cons, Debt.owes, hleft, hweight]
  omega

theorem Books.setFormula (hbooks : Books network audience debts)
    (hformula : network.formula? id = some old) (hsame : new.operands = old.operands)
    (hinner : ∀ debt ∈ debts, debt.of.index < id.index) (hleads : change.Leads new.prerequisites)
    (hnodup : new.prerequisites.Nodup)
    (hvalid : ∀ shape tally, new = .compound shape tally → tally.Valid)
    (hleft : ∀ compound, audience.includes (.operandOf compound) = true →
      left.count (.operandOf compound) = (network.operandsAt compound).count id) :
    Books (network.setFormula id new) audience (⟨id, left, change⟩ :: debts) where
  nodup other := by
    rw [reads_setFormula hformula]
    split
    · exact hnodup
    · exact hbooks.nodup other
  valid other shape tally hother := by
    rw [formula?_setFormula] at hother
    split at hother
    next heq =>
      rw [heq, hformula] at hother
      exact hvalid shape tally (Option.some.inj hother)
    next => exact hbooks.valid other shape tally hother
  descending := List.pairwise_cons.mpr ⟨hinner, hbooks.descending⟩
  leads := by
    refine List.forall_mem_cons.mpr ⟨?_, fun debt hdebt => ?_⟩
    · rwa [reads_setFormula hformula, if_pos rfl]
    · have hne : debt.of ≠ id := fun heq => Nat.lt_irrefl _ (heq ▸ hinner debt hdebt)
      rw [reads_setFormula hformula, if_neg hne]
      exact hbooks.leads debt hdebt
  bounded := by
    refine List.forall_mem_cons.mpr ⟨fun compound hheld => ?_, fun debt hdebt compound hheld => ?_⟩
    · rw [operandsAt_setFormula network new hformula hsame]
      exact Nat.le_of_eq (hleft compound hheld)
    · rw [operandsAt_setFormula network new hformula hsame]
      exact hbooks.bounded debt hdebt compound hheld

/-- A length on nobody's list of operands that now reads something else owes the difference. -/
theorem Ledger.move (hledger : Ledger network audience [])
    (hformula : network.formula? id = some old) (hold : old.operands = [])
    (hnew : new.operands = []) (hleaf : ∀ shape tally, new ≠ .compound shape tally)
    (hnodup : new.prerequisites.Nodup)
    (hleft : ∀ compound, audience.includes (.operandOf compound) = true →
      left.count (.operandOf compound) = (network.operandsAt compound).count id) :
    Ledger (network.setFormula id new) audience
      [⟨id, left, .between old.prerequisites new.prerequisites⟩] := by
  have hsame : new.operands = old.operands := hnew.trans hold.symm
  have hwas : old.prerequisites.Nodup := reads_eq hformula ▸ hledger.nodup id
  refine ⟨hledger.toBooks.setFormula hformula hsame (by simp)
    (PrerequisiteChange.leads_between hwas hnodup) hnodup
    (fun shape tally heq => absurd heq (hleaf shape tally)) hleft, fun compound hheld => ?_⟩
  by_cases heq : compound = id
  · subst heq
    intro shape tally hcompound
    rw [formula?_setFormula, if_pos rfl, hformula] at hcompound
    exact absurd (Option.some.inj hcompound) (hleaf shape tally)
  · exact (hledger.balanced compound hheld).setFormula heq hformula hsame
      (PrerequisiteChange.weight_between hwas hnodup) (hleft compound hheld)

/-- The compound that takes a change up is square with the debt that told it. -/
theorem Balanced.deliver {shape : Compound} {tally : PrerequisiteTally} {next : List Listener}
    {visible : PrerequisiteChange}
    (hbalanced : network.Balanced (⟨id, .operandOf compound :: left, change⟩ :: debts) compound)
    (hlead : change.Leads (network.reads id))
    (hkept : ∀ coordinate ∈ change.removed, 0 < tally.count coordinate)
    (hformula : network.formula? compound = some (.compound shape tally))
    (hself : (network.operandsAt compound).count compound = 0)
    (hnext : next.count (.operandOf compound) = (network.operandsAt compound).count compound) :
    (network.setFormula compound (.compound shape (tally.apply change).2)).Balanced
      (⟨compound, next, visible⟩ :: ⟨id, left, change⟩ :: debts) compound := by
  intro shape' tally' hcompound coordinate
  rw [formula?_setFormula, if_pos rfl, hformula] at hcompound
  obtain ⟨rfl, rfl⟩ := Formula.compound.inj (Option.some.inj hcompound)
  have hsame : (Formula.compound shape (tally.apply change).2).operands =
      (Formula.compound shape tally).operands := rfl
  have hbalance := hbalanced shape tally hformula coordinate
  rw [owed_cons, Debt.owes, List.count_cons_self] at hbalance
  rw [holders_setFormula hformula hsame, hself, owed_cons, owed_cons, Debt.owes, Debt.owes, hnext,
    hself, PrerequisiteTally.count_apply_eq hlead hkept]
  push_cast at hbalance ⊢
  rw [Int.add_mul, Int.one_mul] at hbalance
  omega

/-- One delivery: the compound takes the change up, and owes on what of it is visible. -/
theorem Ledger.deliver {shape : Compound} {tally : PrerequisiteTally} {next : List Listener}
    (hlaid : network.Laid audience)
    (hledger : Ledger network audience (⟨id, .operandOf compound :: left, change⟩ :: debts))
    (hheld : audience.includes (.operandOf compound) = true)
    (hoperand : id ∈ network.operandsAt compound)
    (hformula : network.formula? compound = some (.compound shape tally))
    (hnext : ∀ other, audience.includes (.operandOf other) = true →
      next.count (.operandOf other) = (network.operandsAt other).count compound) :
    Ledger (network.setFormula compound (.compound shape (tally.apply change).2)) audience
      (⟨compound, next, (tally.apply change).1⟩ :: ⟨id, left, change⟩ :: debts) := by
  have hvalid := hledger.valid compound shape tally hformula
  have hlead : change.Leads (network.reads id) := hledger.leads _ List.mem_cons_self
  have hkept : ∀ coordinate ∈ change.removed, 0 < tally.count coordinate :=
    fun coordinate hremoved => hledger.count_pos hheld hformula hremoved
  have hinner : ∀ debt ∈ ⟨id, left, change⟩ :: debts, debt.of.index < compound.index := by
    have hless := hlaid.older _ _ hoperand
    refine List.forall_mem_cons.mpr ⟨hless, fun debt hdebt => ?_⟩
    exact ((List.pairwise_cons.mp hledger.descending).1 debt hdebt).trans hless
  refine ⟨hledger.toBooks.reach.setFormula hformula rfl hinner
    (PrerequisiteTally.leads_visible hvalid hlead) (hvalid.apply change).nodup
    (fun _ _ heq => ?_) hnext, fun other hother => ?_⟩
  · injection heq with _ htally
    exact htally ▸ hvalid.apply change
  · by_cases heq : other = compound
    · subst heq
      have hself : (network.operandsAt other).count other = 0 :=
        List.count_eq_zero.mpr fun hmem => Nat.lt_irrefl _ (hlaid.older _ _ hmem)
      exact (hledger.balanced other hother).deliver hlead hkept hformula hself (hnext other hother)
    · have hreached := (hledger.balanced other hother).reach fun hsame =>
        heq (Listener.operandOf.inj hsame).symm
      exact hreached.setFormula heq hformula rfl
        (PrerequisiteTally.weight_visible hvalid hlead hkept) (hnext other hother)

end Replace

/-! Whole announcements leave nothing owed. -/

theorem count_filter_includes {network : Network} {audience : Audience}
    (hlaid : network.Laid audience) (channel : Channel) (id : LengthId) :
    ∀ compound, audience.includes (.operandOf compound) = true →
      ((network.listeners channel id).filter audience.includes).count (.operandOf compound) =
        (network.operandsAt compound).count id :=
  fun compound hheld => (List.count_filter hheld).trans (hlaid.enrolled channel id compound hheld)

/-- A compound in use takes up what an operand announces, and then owes on what of it is visible. -/
structure Delivery (audience : Audience) (network : Network) (id compound : LengthId)
    (left : List Listener) (change : PrerequisiteChange) (debts : List Debt) (shape : Compound)
    (tally : PrerequisiteTally) : Prop where
  operand : id ∈ network.operandsAt compound
  formula : network.formula? compound = some (.compound shape tally)
  follows : Follows audience network
    (network.setFormula compound (.compound shape (tally.apply change).2))
  ledger : Ledger (network.setFormula compound (.compound shape (tally.apply change).2)) audience
    (⟨compound, (network.listeners .prerequisites compound).filter audience.includes,
      (tally.apply change).1⟩ :: ⟨id, left, change⟩ :: debts)

theorem Ledger.exists_delivery {network : Network} {audience : Audience} {id compound : LengthId}
    {left : List Listener} {change : PrerequisiteChange} {debts : List Debt}
    (hlaid : network.Laid audience)
    (hlistens : .operandOf compound ∈ network.listeners .prerequisites id)
    (hincluded : audience.includes (.operandOf compound) = true)
    (hledger : Ledger network audience (⟨id, .operandOf compound :: left, change⟩ :: debts)) :
    ∃ shape tally, Delivery audience network id compound left change debts shape tally := by
  have hoperand := (hlaid.mem_operandsAt hincluded).mp hlistens
  obtain ⟨shape, tally, hformula, _⟩ := hlaid.builtIn.exists_compound hoperand
  exact ⟨shape, tally, hoperand, hformula, follows_setFormula network hformula rfl rfl,
    hledger.deliver hlaid hincluded hoperand hformula
      (count_filter_includes hlaid .prerequisites compound)⟩

/-- That announcements of some depth pay what they start out owing. -/
def Pays (audience : Audience) (depth : Nat) : Prop :=
  ∀ {id : LengthId} {network : Network} {change : PrerequisiteChange} {debts : List Debt},
    network.Laid audience → network.lengths.size ≤ depth + id.index →
      Ledger network audience
        (⟨id, (network.listeners .prerequisites id).filter audience.includes, change⟩ :: debts) →
      Ledger (announcePrerequisites audience depth id change network) audience debts

theorem ledger_hearPrerequisites {audience : Audience} {depth : Nat} (hpays : Pays audience depth)
    {network : Network} {id : LengthId} {change : PrerequisiteChange} {listener : Listener}
    {left : List Listener} {debts : List Debt} (hlaid : network.Laid audience)
    (hfuel : network.lengths.size ≤ depth + 1 + id.index)
    (hlistens : listener ∈ network.listeners .prerequisites id)
    (hincluded : audience.includes listener = true)
    (hledger : Ledger network audience (⟨id, listener :: left, change⟩ :: debts)) :
    Ledger (hearPrerequisites audience depth id change network listener) audience
      (⟨id, left, change⟩ :: debts) := by
  cases listener with
  | recipeOf coordinate wiring => exact (hledger.pay fun _ _ => nofun).relays (.note network _)
  | watch number => exact (hledger.pay fun _ _ => nofun).relays (.note network _)
  | operandOf compound =>
      obtain ⟨shape, tally, hdelivery⟩ := hledger.exists_delivery hlaid hlistens hincluded
      have hless := hlaid.older _ _ hdelivery.operand
      simp only [hearPrerequisites, passOn_compound hdelivery.formula]
      split
      next hempty =>
        refine hdelivery.ledger.forget fun other coordinate _ => ?_
        simp only [PrerequisiteChange.isEmpty, Bool.and_eq_true, List.isEmpty_iff] at hempty
        simp [Debt.owes, PrerequisiteChange.weight, hempty.1, hempty.2]
      next =>
        refine hpays (hdelivery.follows.laid hlaid) (by rw [hdelivery.follows.size]; omega) ?_
        rw [listeners_setFormula]
        exact hdelivery.ledger

section Announce

variable {audience : Audience} {depth : Nat} {id : LengthId} {network : Network}
  {change : PrerequisiteChange} {debts : List Debt} {r : Network → Network → Prop}
  (hpays : Pays audience depth) (hrefl : ∀ state, r state state)
  (htrans : ∀ {first second third}, r first second → r second third → r first third)
  (hstep : ∀ {state : Network} {listener : Listener} {left : List Listener},
    state.Laid audience → state.lengths.size ≤ depth + 1 + id.index →
      listener ∈ state.listeners .prerequisites id → audience.includes listener = true →
        Ledger state audience (⟨id, listener :: left, change⟩ :: debts) →
        r state (hearPrerequisites audience depth id change state listener))

include hpays hrefl htrans hstep

theorem foldl_hearPrerequisites {left : List Listener} (hlaid : network.Laid audience)
    (hfuel : network.lengths.size ≤ depth + 1 + id.index)
    (hlistens : ∀ listener ∈ left, listener ∈ network.listeners .prerequisites id ∧
      audience.includes listener = true)
    (hledger : Ledger network audience (⟨id, left, change⟩ :: debts)) :
    r network (left.foldl (hearPrerequisites audience depth id change) network) ∧
      Ledger (left.foldl (hearPrerequisites audience depth id change) network) audience
        (⟨id, [], change⟩ :: debts) := by
  -- After every listener the debt is what is left of the roster.
  induction left generalizing network with
  | nil => exact ⟨hrefl network, hledger⟩
  | cons listener left ih =>
      obtain ⟨⟨hmem, hincluded⟩, hrest⟩ := List.forall_mem_cons.mp hlistens
      have hnext := retallies_hearPrerequisites (reaches audience depth) hlaid hfuel change hmem
        hincluded
      have hpaid := ledger_hearPrerequisites hpays hlaid hfuel hmem hincluded hledger
      obtain ⟨hrelated, hdone⟩ := ih (hnext.laid hlaid) (hnext.size ▸ hfuel)
        (fun other hother => ⟨(hnext.mem_listeners (hrest other hother).2).mpr
          (hrest other hother).1, (hrest other hother).2⟩) hpaid
      exact ⟨htrans (hstep hlaid hfuel hmem hincluded hledger) hrelated, hdone⟩

theorem announcePrerequisites_related (hlaid : network.Laid audience)
    (hfuel : network.lengths.size ≤ depth + 1 + id.index)
    (hledger : Ledger network audience
      (⟨id, (network.listeners .prerequisites id).filter audience.includes, change⟩ :: debts)) :
    r (network.opened audience .prerequisites id (.lengthPrerequisites id change))
        (announcePrerequisites audience (depth + 1) id change network) ∧
      Ledger (announcePrerequisites audience (depth + 1) id change network) audience debts := by
  have hopened := relays_opened audience network .prerequisites id (.lengthPrerequisites id change)
  have hroster := roster_opened audience hlaid.builtIn .prerequisites id
    (.lengthPrerequisites id change)
  have hstart := hledger.relays hopened
  rw [announcePrerequisites_succ, hroster]
  generalize network.opened audience .prerequisites id (.lengthPrerequisites id change) = start
    at hopened hstart ⊢
  obtain ⟨hrelated, hdone⟩ := foldl_hearPrerequisites hpays hrefl htrans hstep
    (hopened.laid hlaid) (hopened.size ▸ hfuel) (fun listener hmem => by
      obtain ⟨hlistens, hincluded⟩ := List.mem_filter.mp hmem
      exact ⟨(hopened.mem_listeners hincluded).mpr hlistens, hincluded⟩) hstart
  exact ⟨hrelated, hdone.forget fun compound coordinate _ => by simp [Debt.owes]⟩

end Announce

theorem pays (audience : Audience) (depth : Nat) : Pays audience depth := by
  induction depth with
  | zero =>
      intro id network change debts hlaid hfuel hledger
      refine hledger.forget fun compound coordinate hheld => ?_
      have hempty : network.listeners .prerequisites id = [] := by
        rw [List.eq_nil_iff_forall_not_mem]
        intro listener hmem
        have hlt := lt_of_mem_listeners hmem
        omega
      simp [Debt.owes, hempty]
  | succ depth ih =>
      intro id network change debts hlaid hfuel hledger
      exact (announcePrerequisites_related (r := fun _ _ => True) ih (fun _ => trivial)
        (fun _ _ => trivial) (fun _ _ _ _ _ => trivial) hlaid hfuel hledger).2

end Network

end RegionLayout
