import RegionLayout.Length.Binding
import RegionLayout.Proofs.Length.Absorption
import RegionLayout.Proofs.Length.Evaluation

/-!
Binding tells what it changes. A sound network stays sound, whoever has a recipe that now reads
something else, or may come to something else, has announced it, and compounds announce exactly how
they change.
-/

namespace RegionLayout

/-- A span is bound to both edges of one axis of a cell, or to nothing. -/
def AncestorSpan.IsBound (span : AncestorSpan) : Prop :=
  span.bound = [] ∨ ∃ (cell : CellId) (axis : Axis),
    span.bound = [cell.coordinate axis .alpha, cell.coordinate axis .beta]

theorem CellId.coordinate_injective (axis : Axis) (edge : Edge) :
    Function.Injective fun cell : CellId => cell.coordinate axis edge :=
  fun _ _ hsame => (CoordinateId.mk.inj hsame).1

theorem AncestorSpan.isBound_target (span : AncestorSpan) (owner : CoordinateId)
    (around : Surroundings) :
    ({ span with bound := span.target owner around } : AncestorSpan).IsBound := by
  simp only [IsBound, target]
  split
  next ancestor _ => exact .inr ⟨ancestor, owner.axis, rfl⟩
  next => exact .inl rfl

theorem AncestorSpan.IsBound.nodup {span : AncestorSpan} (hbound : span.IsBound) :
    span.bound.Nodup := by
  rcases hbound with hnone | ⟨cell, axis, hboth⟩
  · rw [hnone]
    exact List.nodup_nil
  · simp [hboth, CellId.coordinate]

theorem AncestorSpan.IsBound.eq_of_mem_iff {span other : AncestorSpan} (hbound : span.IsBound)
    (hbound' : other.IsBound) (hsame : ∀ coordinate, coordinate ∈ span.bound ↔
      coordinate ∈ other.bound) : span.bound = other.bound := by
  rcases hbound with hnone | ⟨cell, axis, hboth⟩
  · rw [hnone] at hsame ⊢
    exact (List.eq_nil_iff_forall_not_mem.mpr fun coordinate hmem =>
      List.not_mem_nil ((hsame coordinate).mpr hmem)).symm
  · rcases hbound' with hnone' | ⟨cell', axis', hboth'⟩
    · rw [hnone', hboth] at hsame
      exact absurd ((hsame _).mp List.mem_cons_self) List.not_mem_nil
    · have hmem := (hsame (cell.coordinate axis .alpha)).mp (by simp [hboth])
      simp only [hboth', List.mem_cons, List.not_mem_nil, or_false, CellId.coordinate,
        CoordinateId.mk.injEq] at hmem
      rcases hmem with ⟨rfl, rfl, _⟩ | ⟨_, _, hedge⟩
      · rw [hboth, hboth']
      · contradiction

namespace Network

/-- What happened to a network has been told to whom it concerns. -/
structure Heralds (audience : Audience) (before after : Network) : Prop
    extends Follows audience before after where
  formula : ∀ id, AlikeAt before after id ∨
    ∀ upper, audience.includes (.operandOf upper) = true → before.BuiltOf upper id →
      Told audience before after .invalidated upper
  reads : ∀ id, (∀ coordinate, coordinate ∈ after.reads id ↔ coordinate ∈ before.reads id) ∨
    Told audience before after .prerequisites id
  unfolds : Unfolds before after

namespace Heralds

variable {audience : Audience} {before middle after : Network}

theorem refl (hbuilt : before.BuiltIn) : Heralds audience before before where
  toFollows := .refl before
  formula id := .inl fun formula hformula => ⟨formula, hformula, .refl (hbuilt id formula hformula)⟩
  reads _ := .inl fun _ => Iff.rfl
  unfolds := .refl before

theorem trans (hfirst : Heralds audience before middle)
    (hsecond : Heralds audience middle after) : Heralds audience before after where
  toFollows := hfirst.toFollows.trans hsecond.toFollows
  formula id := by
    rcases hfirst.formula id with halike | htold
    · rcases hsecond.formula id with halike' | htold
      · exact .inl (halike.trans halike')
      · exact .inr fun upper hheld hpath => (htold upper hheld
          (hfirst.builtOf_iff.mpr hpath)).extend hfirst.toFollows hsecond.recorded (.refl after)
    · exact .inr fun upper hheld hpath => (htold upper hheld hpath).extend (.refl before)
        hfirst.recorded hsecond.recorded
  reads id := by
    rcases hfirst.reads id with hsame | htold
    · rcases hsecond.reads id with hsame' | htold
      · exact .inl fun coordinate => (hsame' coordinate).trans (hsame coordinate)
      · exact .inr (htold.extend hfirst.toFollows hsecond.recorded (.refl after))
    · exact .inr (htold.extend (.refl before) hfirst.recorded hsecond.recorded)
  unfolds := hfirst.unfolds.trans hsecond.unfolds

end Heralds

/-- A network with consistent rosters, exact tallies, and spans bound to both edges of an axis. -/
structure Sound (network : Network) (audience : Audience) : Prop where
  laid : network.Laid audience
  ledger : Ledger network audience []
  spans : ∀ id span, network.formula? id = some (.ancestorSpan span) → span.IsBound

/-- A change of a network that keeps it sound and tells what it does. -/
def Honest (audience : Audience) (before after : Network) : Prop :=
  before.Sound audience → Heralds audience before after ∧ after.Sound audience

theorem Honest.refl {audience : Audience} (network : Network) : Honest audience network network :=
  fun hsound => ⟨.refl hsound.laid.builtIn, hsound⟩

theorem Honest.trans {audience : Audience} {before middle after : Network}
    (hfirst : Honest audience before middle) (hsecond : Honest audience middle after) :
    Honest audience before after := by
  intro hsound
  obtain ⟨hheralds, hmiddle⟩ := hfirst hsound
  obtain ⟨hheralds', hafter⟩ := hsecond hmiddle
  exact ⟨hheralds.trans hheralds', hafter⟩

/-! One leaf at a time. -/

/-- A formula without operands, of a kind that layouts are made of. -/
structure Leaf (formula : Formula) : Prop where
  builtIn : formula.isBuiltIn = true
  operands : formula.operands = []
  simple : ∀ shape tally, formula ≠ .compound shape tally
  nodup : formula.prerequisites.Nodup
  spans : ∀ span, formula = .ancestorSpan span → span.IsBound

section Leaf

variable {audience : Audience} {network : Network} {id : LengthId} {old new : Formula}

theorem alikeAt_setFormula_of_ne {other : LengthId} (hbuilt : network.BuiltIn) (hne : other ≠ id) :
    AlikeAt network (network.setFormula id new) other := by
  intro formula hformula
  rw [formula?_setFormula, if_neg hne]
  exact ⟨formula, hformula, .refl (hbuilt other formula hformula)⟩

theorem alikeAt_setFormula (hbuilt : network.BuiltIn) (hformula : network.formula? id = some old)
    (halike : old.Alike new) (other : LengthId) :
    AlikeAt network (network.setFormula id new) other := by
  by_cases heq : other = id
  · subst heq
    intro formula hother
    rw [hformula] at hother
    obtain rfl := Option.some.inj hother
    exact ⟨new, by rw [formula?_setFormula, if_pos rfl, hformula]; rfl, halike⟩
  · exact alikeAt_setFormula_of_ne hbuilt heq

theorem SameButTally.alikeAt {after : Network} {other : LengthId}
    (hsame : SameButTally (network.formula? other) (after.formula? other))
    (hbuilt : network.BuiltIn) : AlikeAt network after other := by
  intro formula hformula
  rcases hsame with heq | ⟨shape, old, new, hold, hnew⟩
  · exact ⟨formula, heq.trans hformula, .refl (hbuilt other formula hformula)⟩
  · rw [hold] at hformula
    obtain rfl := Option.some.inj hformula
    exact ⟨_, hnew, .compound shape old new⟩

theorem Sound.relays {after : Network} (hsound : network.Sound audience)
    (hrelays : Relays audience network after) : after.Sound audience where
  laid := hrelays.laid hsound.laid
  ledger := hsound.ledger.relays hrelays
  spans id span hformula := hsound.spans id span (hrelays.formula id ▸ hformula)

theorem spans_setFormula (hspans : ∀ id span, network.formula? id = some (.ancestorSpan span) →
      span.IsBound) (hnew : Leaf new) :
    ∀ other span, (network.setFormula id new).formula? other = some (.ancestorSpan span) →
      span.IsBound := by
  intro other span hother
  rw [formula?_setFormula] at hother
  split at hother
  next =>
    obtain ⟨_, _, heq⟩ := Option.map_eq_some_iff.mp hother
    exact hnew.spans span heq
  next => exact hspans other span hother

theorem Retallies.spans {before after : Network} (hretallies : Retallies audience before after)
    (hspans : ∀ id span, before.formula? id = some (.ancestorSpan span) → span.IsBound)
    {span : AncestorSpan} (hafter : after.formula? id = some (.ancestorSpan span)) :
    span.IsBound := by
  rcases hretallies.formula id with hsame | ⟨shape, _, _, _, hcompound⟩
  · exact hspans id span (hsame ▸ hafter)
  · rw [hafter] at hcompound
    cases hcompound

/-- The debt that a leaf owes when it reads something else. -/
theorem ledger_setFormula (hsound : network.Sound audience)
    (hformula : network.formula? id = some old) (hold : Leaf old) (hnew : Leaf new) :
    Ledger (network.setFormula id new) audience
      [⟨id, (network.listeners .prerequisites id).filter audience.includes,
        .between old.prerequisites new.prerequisites⟩] :=
  hsound.ledger.move hformula hold.operands hnew.operands hnew.simple hnew.nodup
    (count_filter_includes hsound.laid .prerequisites id)

theorem ledger_setFormula_of_isEmpty (hsound : network.Sound audience)
    (hformula : network.formula? id = some old) (hold : Leaf old) (hnew : Leaf new)
    (hsame : (PrerequisiteChange.between old.prerequisites new.prerequisites).isEmpty = true) :
    Ledger (network.setFormula id new) audience [] := by
  refine (ledger_setFormula hsound hformula hold hnew).forget fun compound coordinate _ => ?_
  simp only [PrerequisiteChange.isEmpty, Bool.and_eq_true, List.isEmpty_iff] at hsame
  simp [Debt.owes, PrerequisiteChange.weight, hsame.1, hsame.2]

theorem mem_reads_setFormula (hformula : network.formula? id = some old)
    (hsame : (PrerequisiteChange.between old.prerequisites new.prerequisites).isEmpty = true)
    (other : LengthId) (coordinate : CoordinateId) :
    coordinate ∈ (network.setFormula id new).reads other ↔ coordinate ∈ network.reads other := by
  rw [reads_setFormula hformula]
  split
  next heq =>
    rw [heq, reads_eq hformula]
    exact (PrerequisiteChange.isEmpty_between_iff.mp hsame coordinate).symm
  next => exact Iff.rfl

theorem Leaf.aside (hold : Leaf old) (hnew : Leaf new) (hbuilt : network.BuiltIn)
    (hformula : network.formula? id = some old)
    (hsame : (PrerequisiteChange.between old.prerequisites new.prerequisites).isEmpty = true) :
    Aside network (network.setFormula id new) :=
  aside_setFormula hbuilt hformula (hnew.operands.trans hold.operands.symm) hnew.builtIn
    fun coordinate => (PrerequisiteChange.isEmpty_between_iff.mp hsame coordinate).symm

theorem honest_setFormula (hformula : network.formula? id = some old) (hold : Leaf old)
    (hnew : Leaf new) (halike : old.Alike new)
    (hsame : (PrerequisiteChange.between old.prerequisites new.prerequisites).isEmpty = true) :
    Honest audience network (network.setFormula id new) := by
  intro hsound
  have hset : Follows audience network (network.setFormula id new) :=
    follows_setFormula network hformula (hnew.operands.trans hold.operands.symm) hnew.builtIn
  exact ⟨⟨hset, fun other => .inl (alikeAt_setFormula hsound.laid.builtIn hformula halike other),
    fun other => .inl (mem_reads_setFormula hformula hsame other),
    (hold.aside hnew hsound.laid.builtIn hformula hsame).unfolds⟩,
    ⟨hset.laid hsound.laid, ledger_setFormula_of_isEmpty hsound hformula hold hnew hsame,
      spans_setFormula hsound.spans hnew⟩⟩

theorem told_invalidate (hlaid : network.Laid audience) (id : LengthId) :
    Relays audience network (network.invalidate audience id) ∧
      ∀ upper, audience.includes (.operandOf upper) = true → network.BuiltOf upper id →
        Told audience network (network.invalidate audience id) .invalidated upper := by
  rw [invalidate, hlaid.builtIn.channelOf]
  exact ⟨relays_announceInvalidated audience network.lengths.size id network,
    fun upper hheld hpath =>
      told_announceInvalidated hlaid (Nat.le_add_right _ id.index) (.inr hheld) hpath⟩

/-- Once a change at one length is made and told as far as it is read, invalidating that length
tells everyone above. -/
theorem heralds_invalidate {moved : Network} (hmoved : Follows audience network moved)
    (hsound : moved.Sound audience) (halike : ∀ other, other ≠ id → AlikeAt network moved other)
    (hreads : ∀ other, (∀ coordinate, coordinate ∈ moved.reads other ↔
      coordinate ∈ network.reads other) ∨ Told audience network moved .prerequisites other)
    (hunfolds : Unfolds network moved) :
    Heralds audience network (moved.invalidate audience id) ∧
      (moved.invalidate audience id).Sound audience := by
  obtain ⟨hrelays, htold⟩ := told_invalidate hsound.laid id
  have hunfolds' := hunfolds.trans (unfolds_invalidate moved audience id)
  generalize moved.invalidate audience id = after at hrelays htold hunfolds' ⊢
  -- Invalidation leaves all formulas as they are, so that what was told of them before stands.
  refine ⟨⟨hmoved.trans hrelays.toFollows, fun other => ?_, fun other => ?_, hunfolds'⟩,
    hsound.relays hrelays⟩
  · by_cases heq : other = id
    · exact .inr fun upper hheld hpath => (htold upper hheld
        (hmoved.builtOf_iff.mpr (heq ▸ hpath))).extend hmoved hrelays.recorded (.refl after)
    · have hrelayed : AlikeAt moved after other :=
        SameButTally.alikeAt (.inl (hrelays.formula other)) hsound.laid.builtIn
      exact .inl ((halike other heq).trans hrelayed)
  · rw [show after.reads other = moved.reads other by rw [reads, hrelays.formula, reads]]
    exact (hreads other).imp_right fun hread =>
      hread.extend (.refl network) hmoved.recorded hrelays.recorded

/-- A leaf that reads the same as before, and comes to something else, tells everyone above. -/
theorem honest_invalidate (hformula : network.formula? id = some old) (hold : Leaf old)
    (hnew : Leaf new)
    (hsame : (PrerequisiteChange.between old.prerequisites new.prerequisites).isEmpty = true) :
    Honest audience network ((network.setFormula id new).invalidate audience id) := by
  intro hsound
  have hset : Follows audience network (network.setFormula id new) :=
    follows_setFormula network hformula (hnew.operands.trans hold.operands.symm) hnew.builtIn
  exact heralds_invalidate hset
    ⟨hset.laid hsound.laid, ledger_setFormula_of_isEmpty hsound hformula hold hnew hsame,
      spans_setFormula hsound.spans hnew⟩
    (fun _ hne => alikeAt_setFormula_of_ne hsound.laid.builtIn hne)
    (fun other => .inl (mem_reads_setFormula hformula hsame other))
    (hold.aside hnew hsound.laid.builtIn hformula hsame).unfolds

/-- A leaf that reads something else tells everyone above. -/
theorem honest_announceMove (hformula : network.formula? id = some old) (hold : Leaf old)
    (hnew : Leaf new)
    (hquiet : (∀ coordinate, coordinate ∈ old.prerequisites ↔ coordinate ∈ new.prerequisites) →
      old.Alike new) :
    Honest audience network ((network.setFormula id new).announceMove audience id
      old.prerequisites new.prerequisites) := by
  unfold announceMove
  dsimp only
  split
  next hempty =>
    exact honest_setFormula hformula hold hnew
      (hquiet (PrerequisiteChange.isEmpty_between_iff.mp hempty)) hempty
  next hmoves =>
    intro hsound
    have hset : Follows audience network (network.setFormula id new) :=
      follows_setFormula network hformula (hnew.operands.trans hold.operands.symm) hnew.builtIn
    have hlaid := hset.laid hsound.laid
    have hledger := ledger_setFormula hsound hformula hold hnew
    rw [← listeners_setFormula network id id .prerequisites new] at hledger
    have hrewired := hledger.unfolds_rewire hsound.laid.builtIn hformula hold.operands hnew.operands
      hlaid (Bool.eq_false_iff.mpr hmoves)
    rw [rewire, hlaid.builtIn.channelOf] at hrewired ⊢
    obtain ⟨hretallies, htold⟩ := reaches audience (network.setFormula id new).lengths.size id hlaid
      (Nat.le_add_right _ id.index) (.between old.prerequisites new.prerequisites)
    have hpaid := pays audience (network.setFormula id new).lengths.size hlaid
      (Nat.le_add_right _ id.index) hledger
    generalize announcePrerequisites audience (network.setFormula id new).lengths.size id
      (.between old.prerequisites new.prerequisites) (network.setFormula id new) = middle
        at hretallies htold hpaid hrewired ⊢
    refine heralds_invalidate (hset.trans hretallies.toFollows)
      ⟨hretallies.laid hlaid, hpaid, fun other span hother =>
        hretallies.spans (spans_setFormula hsound.spans hnew) hother⟩
      (fun other hne => (alikeAt_setFormula_of_ne hsound.laid.builtIn hne).trans
        ((hretallies.formula other).alikeAt hlaid.builtIn)) (fun other => ?_) hrewired
    by_cases heq : other = id
    · subst heq
      exact .inr (htold.extend hset hretallies.recorded (.refl middle))
    · rcases hretallies.told other with hsame | htold
      · refine .inl fun coordinate => (hsame coordinate).trans ?_
        rw [reads_setFormula hformula, if_neg heq]
      · exact .inr (htold.extend hset hretallies.recorded (.refl middle))

end Leaf

theorem Sound.leaf {audience : Audience} {network : Network} {id : LengthId} {formula : Formula}
    (hsound : network.Sound audience) (hformula : network.formula? id = some formula)
    (hsimple : ∀ shape tally, formula ≠ .compound shape tally) : Leaf formula where
  builtIn := hsound.laid.builtIn id formula hformula
  operands := by
    have hbuilt := hsound.laid.builtIn id formula hformula
    cases formula with
    | compound shape tally => exact absurd rfl (hsimple shape tally)
    | tracer own => exact absurd hbuilt Bool.false_ne_true
    | _ => rfl
  simple := hsimple
  nodup := reads_eq hformula ▸ hsound.ledger.nodup id
  spans span heq := hsound.spans id span (heq ▸ hformula)

/-! What binding does, one leaf at a time. -/

/-- A leaf comes to be another one, and announces how what it reads changes. -/
inductive Shift (audience : Audience) : Network → Network → Prop
  | move {network : Network} {id : LengthId} {old new : Formula}
      (hformula : network.formula? id = some old) (hold : Leaf old) (hnew : Leaf new)
      (hquiet : (∀ coordinate, coordinate ∈ old.prerequisites ↔ coordinate ∈ new.prerequisites) →
        old.Alike new) :
      Shift audience network ((network.setFormula id new).announceMove audience id
        old.prerequisites new.prerequisites)

section Shifts

variable {audience : Audience} {before middle after : Network}

theorem Shift.honest (hshift : Shift audience before after) : Honest audience before after := by
  cases hshift with
  | move hformula hold hnew hquiet => exact honest_announceMove hformula hold hnew hquiet

theorem honest_of_shifts (hshifts : Relation.ReflTransGen (Shift audience) before after) :
    Honest audience before after := by
  induction hshifts with
  | refl => exact .refl before
  | tail _ hshift ih => exact ih.trans hshift.honest

/-- A change of a sound network that is nothing but shifts of its leaves. -/
def Shifts (audience : Audience) (before after : Network) : Prop :=
  before.Sound audience → Relation.ReflTransGen (Shift audience) before after

namespace Shifts

theorem refl (network : Network) : Shifts audience network network :=
  fun _ => .refl

theorem trans (hfirst : Shifts audience before middle) (hsecond : Shifts audience middle after) :
    Shifts audience before after :=
  fun hsound => (hfirst hsound).trans (hsecond (honest_of_shifts (hfirst hsound) hsound).2)

theorem honest (hshifts : Shifts audience before after) : Honest audience before after :=
  fun hsound => honest_of_shifts (hshifts hsound) hsound

end Shifts

end Shifts

section Bind

variable {audience : Audience} {owner : CoordinateId} {around : Surroundings} {network : Network}
  {id : LengthId}

theorem leaf_sibling (own : Sibling) : Leaf (.sibling own) where
  builtIn := rfl
  operands := rfl
  simple := nofun
  nodup := by
    simp only [Formula.prerequisites]
    cases own.peer.coordinate? <;> simp
  spans := nofun

theorem shifts_bindSpan {span : AncestorSpan}
    (hformula : network.formula? id = some (.ancestorSpan span)) :
    Shifts audience network
      ((network.setFormula id (.ancestorSpan
        { span with bound := span.target owner around })).announceMove audience id span.bound
          (span.target owner around)) := by
  intro hsound
  have hbound := hsound.spans id span hformula
  have htarget := span.isBound_target owner around
  have hnew : Leaf (.ancestorSpan { span with bound := span.target owner around }) := by
    refine ⟨rfl, rfl, nofun, htarget.nodup, fun other heq => ?_⟩
    rw [← Formula.ancestorSpan.inj heq]
    exact htarget
  refine .single (.move hformula (hsound.leaf hformula nofun) hnew fun hsame => ?_)
  have heq : span.bound = span.target owner around := hbound.eq_of_mem_iff htarget hsame
  rw [← heq]
  exact .ancestorSpan span

theorem shifts_bindChildren {bound : List CoordinateId} (hchildren : around.children.Nodup)
    (hformula : network.formula? id = some (.childrenMax bound)) :
    Shifts audience network
      ((network.setFormula id (.childrenMax
        (around.children.map fun child => child.coordinate owner.axis .beta))).announceMove audience
          id bound (around.children.map fun child => child.coordinate owner.axis .beta)) := by
  intro hsound
  have hnew : Leaf (.childrenMax
      (around.children.map fun child => child.coordinate owner.axis .beta)) :=
    ⟨rfl, rfl, nofun, hchildren.map (CellId.coordinate_injective owner.axis .beta), nofun⟩
  have hold := hsound.leaf hformula nofun
  refine .single (.move hformula hold hnew fun hsame => ?_)
  exact .childrenMax ((List.perm_ext_iff_of_nodup hold.nodup hnew.nodup).mpr hsame)

/-- A sibling that only takes note of its owner has nothing to announce. -/
theorem shifts_ownSibling {own : Sibling} (hformula : network.formula? id = some (.sibling own)) :
    Shifts audience network
      (network.setFormula id (.sibling { own with owner := some owner })) := by
  intro _
  have hsame : (network.setFormula id (.sibling { own with owner := some owner })).announceMove
      audience id (Formula.sibling own).prerequisites
        (Formula.sibling { own with owner := some owner }).prerequisites =
      network.setFormula id (.sibling { own with owner := some owner }) :=
    if_pos (PrerequisiteChange.isEmpty_between_iff.mpr fun _ => Iff.rfl)
  rw [← hsame]
  exact .single (.move hformula (leaf_sibling own) (leaf_sibling { own with owner := some owner })
    fun _ => .sibling own (some owner) rfl)

theorem shifts_bindSibling {own : Sibling} (hopen : own.peer.isResolved = false) (peer : Peer)
    (hformula : network.formula? id = some (.sibling own)) :
    Shifts audience network
      ((network.setFormula id (.sibling { own with owner := some owner, peer })).announceMove
        audience id [] peer.coordinate?.toList) := by
  intro _
  have hnone : own.peer.coordinate? = none := by
    cases hpeer : own.peer with
    | unresolved => rfl
    | missing => rw [hpeer] at hopen; contradiction
    | found coordinate => rw [hpeer] at hopen; contradiction
  have hnothing : (Formula.sibling own).prerequisites = [] := by
    rw [Formula.prerequisites, hnone]
    rfl
  rw [← hnothing]
  refine .single (.move hformula (leaf_sibling own)
    (leaf_sibling { own with owner := some owner, peer }) fun hsame => ?_)
  refine .sibling own (some owner) ?_
  rw [hnone]
  rw [hnothing] at hsame
  cases hpeer : peer.coordinate? with
  | none => rfl
  | some coordinate =>
      exact absurd ((hsame coordinate).mpr (by simp [Formula.prerequisites, hpeer]))
        List.not_mem_nil

theorem shifts_bindWith {inner : LengthId → Network → Network}
    (hinner : ∀ id network, Shifts audience network (inner id network))
    (hchildren : around.children.Nodup) (id : LengthId) (network : Network) :
    Shifts audience network (bindWith inner audience owner around id network) := by
  cases hformula : network.formula? id with
  | none =>
      simp only [bindWith, hformula]
      exact .refl network
  | some formula =>
      simp only [bindWith, hformula]
      cases formula with
      | constant value => exact .refl network
      | ancestorSpan span => exact shifts_bindSpan hformula
      | childrenMax bound => exact shifts_bindChildren hchildren hformula
      | sibling own =>
          dsimp only
          split
          next => exact shifts_ownSibling hformula
          next hopen =>
            rw [Bool.or_eq_true, not_or, Bool.not_eq_true, Bool.not_eq_true] at hopen
            exact shifts_bindSibling hopen.2 _ hformula
      | compound shape tally =>
          exact foldl_related .refl .trans (fun network operand _ => hinner operand network) network
      | probe own => exact .refl network
      | tracer own =>
          exact fun hsound => absurd (hsound.laid.builtIn id _ hformula) Bool.false_ne_true

theorem shifts_bind (hchildren : around.children.Nodup) (id : LengthId) (network : Network) :
    Shifts audience network (network.bind audience owner around id) := by
  have hdepth : ∀ depth id network,
      Shifts audience network (bindAt audience owner around depth id network) := by
    intro depth
    induction depth with
    | zero => exact fun id network => .refl network
    | succ depth ih => exact shifts_bindWith ih hchildren
  exact hdepth _ id network

theorem honest_bind (hchildren : around.children.Nodup) (id : LengthId) (network : Network) :
    Honest audience network (network.bind audience owner around id) :=
  (shifts_bind hchildren id network).honest

end Bind

theorem leaf_constant (value : Float) : Leaf (.constant value) :=
  ⟨rfl, rfl, nofun, List.nodup_nil, nofun⟩

theorem honest_setConstant {audience : Audience} {network : Network} {id : LengthId} {old : Float}
    (hformula : network.formula? id = some (.constant old)) (new : Float) :
    Honest audience network ((network.setFormula id (.constant new)).invalidate audience id) :=
  honest_invalidate hformula (leaf_constant old) (leaf_constant new) rfl

end Network

end RegionLayout
