import RegionLayout.Proofs.Length.Evaluation

/-!
Presence. Whether a length fails, is absent or is present depends only on which of the values it
reads are there, and not on these values.
-/

namespace RegionLayout

/-- Both fail, or neither and then both are absent or both are present. -/
abbrev SamePresence : Evaluated → Evaluated → Prop :=
  Likened fun _ _ => True

theorem SamePresence.of_isSome {left right : Option Float} (hsame : left.isSome = right.isSome) :
    SamePresence (.ok left) (.ok right) := by
  cases left with
  | none =>
      cases right with
      | none => exact .absent
      | some value => contradiction
  | some value =>
      cases right with
      | none => contradiction
      | some other => exact .present trivial

theorem AncestorSpan.isSome_value (span : AncestorSpan) (read : CoordinateId → Option Float) :
    (span.value read).isSome =
      (span.bound.length == 2 && span.bound.all fun coordinate => (read coordinate).isSome) := by
  rw [value]
  rcases span.bound with _ | ⟨alpha, _ | ⟨beta, _ | ⟨other, rest⟩⟩⟩
  · rfl
  · rfl
  · simp only [List.length_cons, List.length_nil, BEq.rfl, Bool.true_and, List.all_cons,
      List.all_nil, Bool.and_true]
    cases read alpha <;> cases read beta <;> rfl
  · rfl

theorem isSome_greatest (read : CoordinateId → Option Float) (bound : List CoordinateId) :
    (greatest (bound.filterMap read)).isSome =
      bound.any fun coordinate => (read coordinate).isSome := by
  induction bound with
  | nil => rfl
  | cons first rest ih =>
      rw [List.any_cons, List.filterMap_cons]
      cases read first with
      | none => exact ih
      | some value => rfl

theorem Formula.evaluate_samePresence {read other : CoordinateId → Option Float}
    {value value' : LengthId → Evaluated} {formula : Formula} (hbuilt : formula.isBuiltIn = true)
    (hsame : ∀ coordinate ∈ formula.prerequisites,
      (read coordinate).isSome = (other coordinate).isSome)
    (hoperands : ∀ id ∈ formula.operands, SamePresence (value id) (value' id)) :
    SamePresence (formula.evaluate read value) (formula.evaluate other value') := by
  cases formula with
  | constant number => exact .present trivial
  | ancestorSpan span =>
      refine .of_isSome ?_
      rw [AncestorSpan.isSome_value, AncestorSpan.isSome_value]
      refine congrArg (_ && ·) ?_
      rw [Bool.eq_iff_iff, List.all_eq_true, List.all_eq_true]
      exact forall₂_congr fun coordinate hmem => by rw [hsame coordinate hmem]
  | childrenMax bound =>
      rw [evaluate_childrenMax, evaluate_childrenMax]
      refine .of_isSome ?_
      rw [isSome_greatest, isSome_greatest, Bool.eq_iff_iff, List.any_eq_true, List.any_eq_true]
      refine exists_congr fun coordinate => and_congr_right fun hmem => ?_
      rw [hsame coordinate hmem]
  | sibling own =>
      simp only [evaluate, value_sibling]
      cases hpeer : own.peer.coordinate? with
      | some peer =>
          have hread := hsame peer (by simp [prerequisites, hpeer])
          exact .of_isSome (by simpa using hread)
      | none =>
          cases own.strict with
          | true => exact .failed _ _
          | false => exact .absent
  | compound shape tally =>
      exact Compound.evaluate_likened (fun _ => trivial) (fun _ _ _ _ _ _ _ => trivial) hoperands
  | probe own => exact absurd hbuilt Bool.false_ne_true
  | tracer own => exact absurd hbuilt Bool.false_ne_true

namespace Network

variable {network : Network} {id : LengthId}

/-- Evaluation does not look at values to decide whether it comes to one. -/
theorem value_samePresence {read other : CoordinateId → Option Float} (hbuilt : network.BuiltIn)
    (holder : network.Older) (hcovers : network.Covers id)
    (hsame : ∀ coordinate ∈ network.reads id,
      (read coordinate).isSome = (other coordinate).isSome) :
    SamePresence (network.value read id) (network.value other id) := by
  induction hindex : id.index using Nat.strongRecOn generalizing id with
  | _ index ih =>
      subst hindex
      cases hformula : network.formula? id with
      | none =>
          rw [value_none hformula, value_none hformula]
          exact .absent
      | some formula =>
          rw [value_eq holder hformula, value_eq holder hformula]
          refine Formula.evaluate_samePresence (hbuilt id formula hformula) ?_ ?_
          · rwa [reads_eq hformula] at hsame
          · intro operand hoperand
            have hmem : operand ∈ network.operandsAt id := by
              simpa [operandsAt, hformula] using hoperand
            refine ih operand.index (holder id operand hmem)
              (fun upper lower hpath => hcovers upper lower (.head hmem hpath)) ?_ rfl
            exact fun coordinate hread =>
              hsame coordinate (hcovers id operand .refl hmem coordinate hread)

end Network

end RegionLayout
