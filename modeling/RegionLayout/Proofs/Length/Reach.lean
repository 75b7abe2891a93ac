import RegionLayout.Proofs.Length.Places

/-!
What lengths reach for. Some lengths read coordinates of cells around their owner: of an ancestor,
or of all children. Binding has every such length that its length is built of read what it reaches
for from there, and no announcement or binding has any other read something else.
-/

namespace RegionLayout

open Relation

/-- Where a length looks for what it reads. -/
inductive Reach where
  | ancestor (generations : Nat)
  | children
  deriving DecidableEq

def Reach.targets (owner : CoordinateId) (around : Surroundings) : Reach → List CoordinateId
  | ancestor generations =>
    match around.ancestors[generations - 1]? with
    | some found => [found.coordinate owner.axis .alpha, found.coordinate owner.axis .beta]
    | none => []
  | children => around.children.map fun child => child.coordinate owner.axis .beta

def Formula.reach? : Formula → Option Reach
  | .ancestorSpan span => some (.ancestor span.generations)
  | .childrenMax _ => some .children
  | _ => none

namespace Network

def reach? (network : Network) (id : LengthId) : Option Reach :=
  (network.formula? id).bind Formula.reach?

theorem exists_of_reach?_ancestor {network : Network} {id : LengthId} {generations : Nat}
    (hreach : network.reach? id = some (.ancestor generations)) :
    ∃ span, network.formula? id = some (.ancestorSpan span) ∧ span.generations = generations := by
  obtain ⟨formula, hformula, hreach⟩ := Option.bind_eq_some_iff.mp hreach
  cases formula with
  | ancestorSpan span => exact ⟨span, hformula, Reach.ancestor.inj (Option.some.inj hreach)⟩
  | _ => simp [Formula.reach?] at hreach

theorem exists_of_reach?_children {network : Network} {id : LengthId}
    (hreach : network.reach? id = some .children) :
    ∃ bound, network.formula? id = some (.childrenMax bound) := by
  obtain ⟨formula, hformula, hreach⟩ := Option.bind_eq_some_iff.mp hreach
  cases formula with
  | childrenMax bound => exact ⟨bound, hformula⟩
  | _ => simp [Formula.reach?] at hreach

/-- Lengths are built of the same, and reach for the same. -/
structure SameReach (before after : Network) : Prop where
  size : after.lengths.size = before.lengths.size
  operands : ∀ id, after.operandsAt id = before.operandsAt id
  reach : ∀ id, after.reach? id = before.reach? id

namespace SameReach

variable {before middle after : Network}

theorem refl (network : Network) : SameReach network network :=
  ⟨rfl, fun _ => rfl, fun _ => rfl⟩

theorem symm (hsame : SameReach before after) : SameReach after before :=
  ⟨hsame.size.symm, fun id => (hsame.operands id).symm, fun id => (hsame.reach id).symm⟩

theorem trans (hfirst : SameReach before middle) (hsecond : SameReach middle after) :
    SameReach before after where
  size := hsecond.size.trans hfirst.size
  operands id := (hsecond.operands id).trans (hfirst.operands id)
  reach id := (hsecond.reach id).trans (hfirst.reach id)

theorem builtOf (hsame : SameReach before after) : after.BuiltOf = before.BuiltOf := by
  rw [BuiltOf, BuiltOf, show after.operandsAt = before.operandsAt from funext hsame.operands]

theorem setFormula {network : Network} {id : LengthId} {old new : Formula}
    (hold : network.formula? id = some old) (hoperands : new.operands = old.operands)
    (hreach : new.reach? = old.reach?) : SameReach network (network.setFormula id new) where
  size := size_setFormula network id new
  operands := operandsAt_setFormula network new hold hoperands
  reach other := by
    rw [reach?, formula?_setFormula, reach?]
    split
    next heq =>
      rw [heq, hold]
      exact hreach
    next => rfl

end SameReach

/-! Changes that no length reaching for something takes part in. -/

/-- Lengths that reach for something read the same, too. -/
structure Rests (before after : Network) : Prop extends SameReach before after where
  reads : ∀ id, (before.reach? id).isSome = true → after.reads id = before.reads id

namespace Rests

variable {before middle after : Network}

theorem of_formula? (hsize : after.lengths.size = before.lengths.size)
    (hformula : ∀ id, after.formula? id = before.formula? id) : Rests before after where
  size := hsize
  operands id := by rw [operandsAt, hformula, operandsAt]
  reach id := by rw [reach?, hformula, reach?]
  reads id _ := by rw [Network.reads, hformula, Network.reads]

theorem of_lengths (hlengths : after.lengths = before.lengths) : Rests before after :=
  .of_formula? (by rw [hlengths]) fun id => by rw [formula?, hlengths, formula?]

theorem refl (network : Network) : Rests network network :=
  .of_lengths rfl

theorem trans (hfirst : Rests before middle) (hsecond : Rests middle after) :
    Rests before after where
  toSameReach := hfirst.toSameReach.trans hsecond.toSameReach
  reads id hreach := by rw [hsecond.reads id (hfirst.reach id ▸ hreach), hfirst.reads id hreach]

end Rests

theorem reads_setFormula_of_ne (network : Network) {id other : LengthId} (new : Formula)
    (hne : other ≠ id) : (network.setFormula id new).reads other = network.reads other := by
  rw [reads, formula?_setFormula, if_neg hne, reads]

theorem rests_setFormula {network : Network} {id : LengthId} {old new : Formula}
    (hold : network.formula? id = some old) (hoperands : new.operands = old.operands)
    (hreach : old.reach? = none) (hreach' : new.reach? = none) :
    Rests network (network.setFormula id new) where
  toSameReach := .setFormula hold hoperands (hreach'.trans hreach.symm)
  reads other hother := by
    refine reads_setFormula_of_ne network new fun heq => ?_
    rw [heq, reach?, hold, Option.bind_some, hreach] at hother
    contradiction

/-! Lengths that were bound at a place read what they reach for from there. -/

theorem SameButTally.reach?_eq {old new : Option Formula} (hsame : SameButTally old new) :
    new.bind Formula.reach? = old.bind Formula.reach? := by
  rcases hsame with rfl | ⟨shape, _, _, rfl, rfl⟩
  · rfl
  · rfl

theorem SameButTally.eq_of_reach? {old new : Option Formula} (hsame : SameButTally old new)
    (hreach : (old.bind Formula.reach?).isSome = true) : new = old := by
  rcases hsame with rfl | ⟨shape, _, _, rfl, rfl⟩
  · rfl
  · contradiction

end Network

theorem Formula.reach?_boundFor (owner : CoordinateId) (around : Surroundings) (formula : Formula) :
    (formula.boundFor owner around).reach? = formula.reach? := by
  cases formula <;> rfl

theorem Formula.prerequisites_boundFor (owner : CoordinateId) (around : Surroundings)
    {formula : Formula} {reach : Reach} (hreach : formula.reach? = some reach) :
    (formula.boundFor owner around).prerequisites = reach.targets owner around := by
  cases formula with
  | ancestorSpan span =>
      rw [← Option.some.inj hreach]
      rfl
  | childrenMax bound =>
      rw [← Option.some.inj hreach]
      rfl
  | _ => contradiction

namespace Network

variable {before after : Network} {owner : CoordinateId} {around : Surroundings}
  {scope : LengthId → Prop} {id : LengthId}

theorem reads_of_sameButTally (hsame : SameButTally (before.formula? id) (after.formula? id))
    (hreach : (before.reach? id).isSome = true) : after.reads id = before.reads id := by
  rw [Network.reads, hsame.eq_of_reach? hreach, Network.reads]

theorem reads_of_bound {reach : Reach}
    (hbound : SameButTally ((before.formula? id).map (·.boundFor owner around)) (after.formula? id))
    (hreach : before.reach? id = some reach) : after.reads id = reach.targets owner around := by
  obtain ⟨formula, hformula, hkind⟩ := Option.bind_eq_some_iff.mp hreach
  have hbound' : (some (formula.boundFor owner around)).bind Formula.reach? = some reach :=
    (formula.reach?_boundFor owner around).trans hkind
  rw [hformula, Option.map_some] at hbound
  rw [Network.reads, hbound.eq_of_reach? (Option.isSome_of_eq_some hbound')]
  exact Formula.prerequisites_boundFor owner around hkind

theorem Recounts.rests (hrecounts : Recounts before after) : Rests before after where
  size := hrecounts.size
  operands id := by rw [operandsAt, (hrecounts.formula id).map_operands, operandsAt]
  reach id := (hrecounts.formula id).reach?_eq
  reads id hreach := reads_of_sameButTally (hrecounts.formula id) hreach

theorem Binds.sameReach (hbinds : Binds owner around scope before after) :
    SameReach before after where
  size := hbinds.size
  operands := hbinds.operandsAt
  reach id := by
    by_cases hscope : scope id
    · have hkind : (Formula.reach? ∘ (·.boundFor owner around)) = Formula.reach? :=
        funext (Formula.reach?_boundFor owner around)
      rw [reach?, (hbinds.bound id hscope).reach?_eq, Option.bind_map, hkind, reach?]
    · exact (hbinds.others id hscope).reach?_eq

end Network

end RegionLayout
