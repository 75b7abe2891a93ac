import RegionLayout.Proofs.Length.Announcing

/-!
What binding makes of lengths. A length is bound at a place together with all that it is built of:
spans are bound to the cells that are there, a sibling is looked up unless it was before, and of all
else only tallies change. To bind a length twice at one place is to bind it once.
-/

namespace RegionLayout

open Relation

/-! One formula. -/

/-- A sibling with its owner, looked up if it was not before and there is a parent to ask. -/
def Sibling.boundFor (sibling : Sibling) (owner : CoordinateId) (around : Surroundings) : Sibling :=
  { sibling with
    owner := some owner
    peer := if around.ancestors.isEmpty || sibling.peer.isResolved then sibling.peer
      else sibling.lookUp owner around }

theorem Sibling.isResolved_lookUp (sibling : Sibling) (owner : CoordinateId)
    (around : Surroundings) : (sibling.lookUp owner around).isResolved = true := by
  unfold lookUp
  split <;> rfl

theorem Sibling.boundFor_boundFor (sibling : Sibling) (owner : CoordinateId)
    (around : Surroundings) :
    (sibling.boundFor owner around).boundFor owner around = sibling.boundFor owner around := by
  cases hempty : around.ancestors.isEmpty with
  | true => simp [boundFor, hempty]
  | false =>
      cases hresolved : sibling.peer.isResolved with
      | true => simp [boundFor, hempty, hresolved]
      | false => simp [boundFor, hempty, hresolved, isResolved_lookUp]

namespace Formula

def boundFor (owner : CoordinateId) (around : Surroundings) : Formula → Formula
  | ancestorSpan span => ancestorSpan { span with bound := span.target owner around }
  | childrenMax _ =>
    childrenMax (around.children.map fun child => child.coordinate owner.axis .beta)
  | sibling own => sibling (own.boundFor owner around)
  | formula => formula

variable (owner : CoordinateId) (around : Surroundings)

theorem boundFor_boundFor (formula : Formula) :
    (formula.boundFor owner around).boundFor owner around = formula.boundFor owner around := by
  cases formula with
  | sibling own => simp only [boundFor, own.boundFor_boundFor]
  | _ => rfl

theorem operands_boundFor (formula : Formula) :
    (formula.boundFor owner around).operands = formula.operands := by
  cases formula <;> rfl

end Formula

namespace Network

theorem SameButTally.refl (formula : Option Formula) : SameButTally formula formula :=
  .inl rfl

theorem SameButTally.map_boundFor {before after : Option Formula}
    (hsame : SameButTally before after) (owner : CoordinateId) (around : Surroundings) :
    SameButTally (before.map (·.boundFor owner around)) (after.map (·.boundFor owner around)) := by
  rcases hsame with rfl | ⟨shape, old, new, rfl, rfl⟩
  · exact .refl _
  · exact .inr ⟨shape, old, new, rfl, rfl⟩

theorem SameButTally.map_boundFor_twice {before after : Option Formula} {owner : CoordinateId}
    {around : Surroundings}
    (hsame : SameButTally (before.map (·.boundFor owner around)) after) :
    SameButTally (before.map (·.boundFor owner around)) (after.map (·.boundFor owner around)) := by
  have htwice := hsame.map_boundFor owner around
  have honce : ∀ formula : Formula,
      (((·.boundFor owner around) ∘ (·.boundFor owner around)) : Formula → Formula) formula =
        formula.boundFor owner around := Formula.boundFor_boundFor owner around
  rwa [Option.map_map, funext honce] at htwice

theorem SameButTally.map_operands {before after : Option Formula}
    (hsame : SameButTally before after) : after.map (·.operands) = before.map (·.operands) := by
  rcases hsame with rfl | ⟨shape, old, new, rfl, rfl⟩
  · rfl
  · rfl

/-- Lengths that are bound in between, if they are in scope, are the only ones that changed, but for
tallies. -/
structure Binds (owner : CoordinateId) (around : Surroundings) (scope : LengthId → Prop)
    (before after : Network) : Prop where
  size : after.lengths.size = before.lengths.size
  bound : ∀ id, scope id →
    SameButTally ((before.formula? id).map (·.boundFor owner around)) (after.formula? id)
  others : ∀ id, ¬ scope id → SameButTally (before.formula? id) (after.formula? id)

/-- At most tallies changed. -/
structure Recounts (before after : Network) : Prop where
  size : after.lengths.size = before.lengths.size
  formula : ∀ id, SameButTally (before.formula? id) (after.formula? id)

namespace Recounts

variable {before middle after : Network}

theorem of_formula? (hsize : after.lengths.size = before.lengths.size)
    (hformula : ∀ id, after.formula? id = before.formula? id) : Recounts before after :=
  ⟨hsize, fun id => .inl (hformula id)⟩

theorem of_lengths (hlengths : after.lengths = before.lengths) : Recounts before after :=
  .of_formula? (by rw [hlengths]) fun id => by rw [formula?, hlengths, formula?]

theorem refl (network : Network) : Recounts network network :=
  .of_lengths rfl

theorem trans (hfirst : Recounts before middle) (hsecond : Recounts middle after) :
    Recounts before after :=
  ⟨hsecond.size.trans hfirst.size, fun id => (hfirst.formula id).trans (hsecond.formula id)⟩

end Recounts

theorem announcing_recounts (audience : Audience) : Announcing audience Recounts where
  refl := .refl
  trans := .trans
  strike network channel id := .of_formula? (size_strike network id channel audience)
    fun other => formula?_strike network id other channel audience
  note _ _ _ := .of_lengths rfl
  recount network id shape old new hformula := by
    refine ⟨size_setFormula network id _, fun other => ?_⟩
    rw [formula?_setFormula]
    split
    next heq =>
      rw [heq, hformula]
      exact .inr ⟨shape, old, new, rfl, rfl⟩
    next => exact .refl _

section Binds

variable {owner : CoordinateId} {around : Surroundings} {before middle after network : Network}
  {scope more : LengthId → Prop}

namespace Binds

theorem of_recounts (hrecounts : Recounts before after) :
    Binds owner around (fun _ => False) before after :=
  ⟨hrecounts.size, fun _ => False.elim, fun id _ => hrecounts.formula id⟩

theorem operandsAt (hbinds : Binds owner around scope before after) (id : LengthId) :
    after.operandsAt id = before.operandsAt id := by
  have hsame : (after.formula? id).map (·.operands) = (before.formula? id).map (·.operands) := by
    by_cases hscope : scope id
    · rw [(hbinds.bound id hscope).map_operands, Option.map_map]
      exact Option.map_congr fun formula _ => formula.operands_boundFor owner around
    · exact (hbinds.others id hscope).map_operands
  rw [Network.operandsAt, Network.operandsAt, hsame]

theorem trans (hfirst : Binds owner around scope before middle)
    (hsecond : Binds owner around more middle after) :
    Binds owner around (fun id => scope id ∨ more id) before after where
  size := hsecond.size.trans hfirst.size
  bound id hin := by
    by_cases hlast : more id
    · refine SameButTally.trans ?_ (hsecond.bound id hlast)
      by_cases hearlier : scope id
      · exact (hfirst.bound id hearlier).map_boundFor_twice
      · exact (hfirst.others id hearlier).map_boundFor owner around
    · exact (hfirst.bound id (hin.resolve_right hlast)).trans (hsecond.others id hlast)
  others id hout := by
    obtain ⟨hfirst', hsecond'⟩ := not_or.mp hout
    exact (hfirst.others id hfirst').trans (hsecond.others id hsecond')

theorem congr (hbinds : Binds owner around scope before after)
    (hscope : ∀ id, scope id ↔ more id) : Binds owner around more before after where
  size := hbinds.size
  bound id hin := hbinds.bound id ((hscope id).mpr hin)
  others id hout := hbinds.others id fun hin => hout ((hscope id).mp hin)

theorem recounts (hbinds : Binds owner around scope before middle)
    (hrecounts : Recounts middle after) : Binds owner around scope before after :=
  (hbinds.trans (.of_recounts hrecounts)).congr fun _ => iff_of_eq (or_false _)

theorem foldl {items : List LengthId} {step : Network → LengthId → Network}
    {part : LengthId → LengthId → Prop}
    (hstep : ∀ item ∈ items, ∀ state : Network,
      (∀ id, state.operandsAt id = network.operandsAt id) →
      Binds owner around (part item) state (step state item)) :
    Binds owner around (fun id => ∃ item ∈ items, part item id) network
      (items.foldl step network) := by
  induction items generalizing network with
  | nil => exact (of_recounts (.refl network)).congr (by simp)
  | cons first rest ih =>
      have hfirst := hstep first List.mem_cons_self network fun _ => rfl
      have hrest := ih fun item hitem state hsame => hstep item (List.mem_cons_of_mem _ hitem) state
        fun id => (hsame id).trans (hfirst.operandsAt id)
      exact (hfirst.trans hrest).congr fun _ => by simp

/-- What binding leaves as it is may be counted among what is bound. -/
theorem insert (hbinds : Binds owner around scope before after) {id : LengthId}
    (hsame : (before.formula? id).map (·.boundFor owner around) = before.formula? id) :
    Binds owner around (fun lower => lower = id ∨ scope lower) before after where
  size := hbinds.size
  bound lower hin := by
    by_cases hscope : scope lower
    · exact hbinds.bound lower hscope
    · obtain rfl := hin.resolve_right hscope
      rw [hsame]
      exact hbinds.others lower hscope
  others lower hout := hbinds.others lower (not_or.mp hout).2

end Binds

theorem binds_setFormula {id : LengthId} {formula : Formula}
    (hformula : network.formula? id = some formula) :
    Binds owner around (· = id) network
      (network.setFormula id (formula.boundFor owner around)) := by
  refine ⟨size_setFormula network id _, fun other heq => ?_, fun other hne => ?_⟩
  · rw [heq, formula?_setFormula, if_pos rfl, hformula]
    exact .refl _
  · rw [formula?_setFormula, if_neg hne]
    exact .refl _

/-- To bind one length is to bind it by itself and what `inner` binds. -/
theorem binds_bindWith (audience : Audience) {inner : LengthId → Network → Network}
    {part : LengthId → LengthId → Prop} (network : Network)
    (hinner : ∀ operand state, (∀ id, state.operandsAt id = network.operandsAt id) →
      Binds owner around (part operand) state (inner operand state)) (id : LengthId) :
    Binds owner around
      (fun lower => lower = id ∨ ∃ operand ∈ network.operandsAt id, part operand lower) network
      (bindWith inner audience owner around id network) := by
  have hnothing : Binds owner around (fun _ => False) network network :=
    .of_recounts (.refl network)
  cases hformula : network.formula? id with
  | none =>
      simp only [bindWith, hformula, operandsAt]
      exact (hnothing.insert (by rw [hformula]; rfl)).congr (by simp)
  | some formula =>
      have hoperands : network.operandsAt id = formula.operands := by simp [operandsAt, hformula]
      have hbound : Binds owner around (· = id) network
          (network.setFormula id (formula.boundFor owner around)) := binds_setFormula hformula
      have hmoved : ∀ old new, Binds owner around (· = id) network
          ((network.setFormula id (formula.boundFor owner around)).announceMove audience id old
            new) := fun old new =>
        hbound.recounts ((announcing_recounts audience).announceMove _ id old new)
      simp only [bindWith, hformula, hoperands]
      cases formula with
      | constant value =>
          exact (hnothing.insert (by rw [hformula]; rfl)).congr (by simp [Formula.operands])
      | probe own =>
          exact (hnothing.insert (by rw [hformula]; rfl)).congr (by simp [Formula.operands])
      | ancestorSpan span => exact (hmoved _ _).congr (by simp [Formula.operands])
      | childrenMax bound => exact (hmoved _ _).congr (by simp [Formula.operands])
      | sibling own =>
          simp only [Formula.boundFor, Sibling.boundFor] at hbound hmoved
          dsimp only
          split
          next hkept =>
            rw [if_pos hkept] at hbound
            exact hbound.congr (by simp [Formula.operands])
          next hlooks =>
            simp only [if_neg hlooks] at hmoved
            exact (hmoved _ _).congr (by simp [Formula.operands])
      | compound shape tally =>
          have hparts : Binds owner around
              (fun lower => ∃ operand ∈ shape.lengths, part operand lower) network
              (shape.lengths.foldl (fun state operand => inner operand state) network) :=
            .foldl fun operand _ state hsame => hinner operand state hsame
          exact hparts.insert (by rw [hformula]; rfl)
      | tracer own =>
          have hnoted : Binds owner around (fun _ => False) network
              (network.note (.bound own.name owner)) := .of_recounts (.of_lengths rfl)
          have hpassed := hnoted.trans (hinner own.inner _ fun _ => rfl)
          exact (hpassed.insert (by rw [hformula]; rfl)).congr (by simp [Formula.operands])

/-- A length itself, and what it is built of in fewer steps than `depth`. -/
def Within (network : Network) : Nat → LengthId → LengthId → Prop
  | 0, _, _ => False
  | depth + 1, id, lower =>
    lower = id ∨ ∃ operand ∈ network.operandsAt id, Within network depth operand lower

theorem within_congr (hoperands : ∀ id, after.operandsAt id = before.operandsAt id) (depth : Nat)
    (id lower : LengthId) : after.Within depth id lower ↔ before.Within depth id lower := by
  induction depth generalizing id with
  | zero => exact Iff.rfl
  | succ depth ih => simp only [Within, hoperands, ih]

theorem within_iff_builtOf (holder : network.Older) {depth : Nat} {id lower : LengthId}
    (hdepth : id.index < depth) : network.Within depth id lower ↔ network.BuiltOf id lower := by
  induction depth generalizing id with
  | zero => exact absurd hdepth (Nat.not_lt_zero _)
  | succ depth ih =>
      rw [Within, BuiltOf, ReflTransGen.cases_head_iff, eq_comm]
      refine or_congr_right (exists_congr fun operand => and_congr_right fun hoperand => ?_)
      exact ih ((holder id operand hoperand).trans_le (Nat.le_of_lt_succ hdepth))

theorem binds_bindAt (audience : Audience) (depth : Nat) (id : LengthId) (network : Network) :
    Binds owner around (network.Within depth id) network
      (bindAt audience owner around depth id network) := by
  induction depth generalizing id network with
  | zero => exact .of_recounts (.refl network)
  | succ depth ih =>
      refine binds_bindWith audience network (fun operand state hsame => ?_) id
      exact (ih operand state).congr fun lower => within_congr hsame depth operand lower

/-- A length that is bound for an owner is bound with all that it is built of. -/
theorem binds_bind (audience : Audience) (id : LengthId) (network : Network) :
    Binds owner around (network.Within network.lengths.size id) network
      (network.bind audience owner around id) :=
  binds_bindAt audience network.lengths.size id network

end Binds

end Network

/-! Siblings. -/

def Formula.sibling? : Formula → Option Sibling
  | sibling own => some own
  | _ => none

theorem Formula.sibling?_boundFor (owner : CoordinateId) (around : Surroundings)
    (formula : Formula) :
    (formula.boundFor owner around).sibling? = formula.sibling?.map (·.boundFor owner around) := by
  cases formula <;> rfl

namespace Network

variable {before after network : Network} {id : LengthId}

def sibling? (network : Network) (id : LengthId) : Option Sibling :=
  (network.formula? id).bind Formula.sibling?

theorem sibling?_eq_some {own : Sibling} :
    network.sibling? id = some own ↔ network.formula? id = some (.sibling own) := by
  constructor
  · intro hsibling
    obtain ⟨formula, hformula, hown⟩ := Option.bind_eq_some_iff.mp hsibling
    cases formula with
    | sibling other => rw [hformula, ← Option.some.inj hown]
    | _ => contradiction
  · intro hformula
    rw [sibling?, hformula]
    rfl

theorem SameButTally.sibling?_eq {old new : Option Formula} (hsame : SameButTally old new) :
    new.bind Formula.sibling? = old.bind Formula.sibling? := by
  rcases hsame with rfl | ⟨shape, _, _, rfl, rfl⟩
  · rfl
  · rfl

theorem sibling?_of_bound {owner : CoordinateId} {around : Surroundings}
    (hbound : SameButTally ((before.formula? id).map (·.boundFor owner around))
      (after.formula? id)) :
    after.sibling? id = (before.sibling? id).map (·.boundFor owner around) := by
  rw [sibling?, hbound.sibling?_eq, sibling?]
  cases before.formula? id with
  | none => rfl
  | some formula => exact formula.sibling?_boundFor owner around

end Network

end RegionLayout
