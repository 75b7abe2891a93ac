import Mathlib
import RegionLayout.Proofs.Length.Evaluation

/-!
The greatest of some values. What is not a number never wins, and the order of the values matters
only between two that are equal as numbers and yet differ, as two zeros of different sign do: of
these the last one wins.
-/

namespace RegionLayout

open Float.Model (UnpackedFloat)

/-! Numbers in their order. -/

/-- Where a number stands among the others: by sign and infinity, exponent and mantissa. -/
def standing : UnpackedFloat → Int ×ₗ Int ×ₗ Int
  | .notANumber => toLex (0, toLex (0, 0))
  | .infinity .negative => toLex (-2, toLex (0, 0))
  | .infinity .positive => toLex (2, toLex (0, 0))
  | .zero _ => toLex (0, toLex (0, 0))
  | .finite .negative mantissa exponent _ => toLex (-1, toLex (-exponent, -mantissa))
  | .finite .positive mantissa exponent _ => toLex (1, toLex (exponent, mantissa))

theorem compare_natCast (left right : Nat) : compare (left : Int) right = compare left right := by
  rcases Nat.lt_trichotomy left right with hlt | rfl | hlt
  · rw [compare_lt_iff_lt.mpr hlt, compare_lt_iff_lt.mpr (Int.ofNat_lt.mpr hlt)]
  · rw [compare_eq_iff_eq.mpr rfl, compare_eq_iff_eq.mpr rfl]
  · rw [compare_gt_iff_gt.mpr hlt, compare_gt_iff_gt.mpr (Int.ofNat_lt.mpr hlt)]

theorem compare_neg_neg (left right : Int) : compare (-left) (-right) = compare right left := by
  rcases Int.lt_trichotomy left right with hlt | rfl | hlt
  · rw [compare_gt_iff_gt.mpr hlt, compare_gt_iff_gt.mpr (Int.neg_lt_neg hlt)]
  · rw [compare_eq_iff_eq.mpr rfl, compare_eq_iff_eq.mpr rfl]
  · rw [compare_lt_iff_lt.mpr hlt, compare_lt_iff_lt.mpr (Int.neg_lt_neg hlt)]

theorem compare_standing {left right : UnpackedFloat} (hleft : left.isNaN = false)
    (hright : right.isNaN = false) :
    left.compare right = some (compare (standing left) (standing right)) := by
  cases left with
  | notANumber => contradiction
  | infinity sign =>
      cases right with
      | notANumber => contradiction
      | infinity other => cases sign <;> cases other <;> rfl
      | zero other => cases sign <;> rfl
      | finite other mantissa exponent hpos => cases sign <;> cases other <;> rfl
  | zero sign =>
      cases right with
      | notANumber => contradiction
      | infinity other => cases other <;> rfl
      | zero other => rfl
      | finite other mantissa exponent hpos => cases other <;> rfl
  | finite sign mantissa exponent hpos =>
      cases right with
      | notANumber => contradiction
      | infinity other => cases sign <;> cases other <;> rfl
      | zero other => cases sign <;> rfl
      | finite other mantissa' exponent' hpos' =>
          have hexponent : (compare exponent exponent').swap = compare exponent' exponent :=
            Std.OrientedOrd.eq_swap.symm
          have hmantissa : (compare mantissa mantissa').swap = compare mantissa' mantissa :=
            Std.OrientedOrd.eq_swap.symm
          cases sign <;> cases other <;>
            simp only [UnpackedFloat.compare, standing, Prod.Lex.compare_def, compareLex,
              compareOn, ofLex_toLex, compare_natCast, compare_neg_neg, Ordering.swap_then,
              hexponent, hmantissa] <;> rfl

/-! Values. -/

def rankOf (value : Float) : Int ×ₗ Int ×ₗ Int :=
  standing value.toModel.unpack

theorem compare_of_isNaN {left right : UnpackedFloat}
    (hnan : left.isNaN = true ∨ right.isNaN = true) : left.compare right = none := by
  rw [UnpackedFloat.isNaN_iff, UnpackedFloat.isNaN_iff] at hnan
  rcases hnan with rfl | rfl
  · rfl
  · cases left <;> rfl

theorem lt_iff_rankOf {left right : Float} (hleft : left.isNaN = false)
    (hright : right.isNaN = false) : left < right ↔ rankOf left < rankOf right := by
  have hlt : left < right ↔ (left.toModel.unpack.compare right.toModel.unpack == some .lt) = true :=
    by
      show (decide (left.toModel < right.toModel)) = true ↔ _
      rw [decide_eq_true_eq]
      exact Iff.rfl
  rw [hlt, compare_standing hleft hright, beq_iff_eq, Option.some.injEq, compare_lt_iff_lt]
  rfl

theorem beq_iff_rankOf {left right : Float} (hleft : left.isNaN = false)
    (hright : right.isNaN = false) : (left == right) = true ↔ rankOf left = rankOf right := by
  have hbeq : (left == right) =
      (left.toModel.unpack.compare right.toModel.unpack == some .eq) := rfl
  rw [hbeq, compare_standing hleft hright, beq_iff_eq, Option.some.injEq, compare_eq_iff_eq]
  rfl

theorem not_lt_of_isNaN {left right : Float} (hnan : left.isNaN = true ∨ right.isNaN = true) :
    ¬ left < right := by
  have hnone := compare_of_isNaN hnan
  show ¬ (decide (left.toModel < right.toModel)) = true
  rw [decide_eq_true_eq]
  show ¬ (left.toModel.unpack.compare right.toModel.unpack == some .lt) = true
  rw [hnone]
  exact Bool.false_ne_true

theorem eq_of_isNaN {left right : Float} (hleft : left.isNaN = true) (hright : right.isNaN = true) :
    left = right := by
  rw [Float.isNaN_eq_decide_eq_nan, decide_eq_true_eq] at hleft hright
  rw [hleft, hright]

/-! The greatest. -/

/-- No two of some values are equal as numbers and yet differ. -/
def Unmixed (values : List Float) : Prop :=
  ∀ left ∈ values, ∀ right ∈ values, (left == right) = true → left = right

theorem greater_of_isNaN {left right : Float} (hnan : left.isNaN = true) :
    greater left right = right := by
  rw [greater]
  cases hright : right.isNaN with
  | true => rw [if_pos rfl, eq_of_isNaN hnan hright]
  | false => rw [if_neg Bool.false_ne_true, if_neg (not_lt_of_isNaN (.inr hnan))]

theorem greater_isNaN {left right : Float} (hnan : right.isNaN = true) :
    greater left right = left := if_pos hnan

theorem greater_eq {left right : Float} (hleft : left.isNaN = false)
    (hright : right.isNaN = false) :
    greater left right = if rankOf right < rankOf left then left else right := by
  simp only [greater, if_neg (Bool.eq_false_iff.mp hright), lt_iff_rankOf hright hleft]

theorem isNaN_greater {left right : Float} (hleft : left.isNaN = false) :
    (greater left right).isNaN = false := by
  cases hright : right.isNaN with
  | true => rwa [greater_isNaN hright]
  | false =>
      rw [greater_eq hleft hright]
      split <;> assumption

/-- Two numbers that are not equal and yet differ have a greater one. -/
theorem greater_comm_numbers {left right : Float} (hleft : left.isNaN = false)
    (hright : right.isNaN = false) (hsame : (left == right) = true → left = right) :
    greater left right = greater right left := by
  rw [greater_eq hleft hright, greater_eq hright hleft]
  rcases lt_trichotomy (rankOf left) (rankOf right) with hlt | heq | hlt
  · rw [if_neg (lt_asymm hlt), if_pos hlt]
  · rw [hsame ((beq_iff_rankOf hleft hright).mpr heq)]
  · rw [if_pos hlt, if_neg (lt_asymm hlt)]

example : greater 0.0 (-0.0) = -0.0 ∧ greater (-0.0) 0.0 = 0.0 := by decide

theorem greater_assoc_numbers {first second third : Float} (hfirst : first.isNaN = false)
    (hsecond : second.isNaN = false) (hthird : third.isNaN = false) :
    greater (greater first second) third = greater first (greater second third) := by
  rw [greater_eq (isNaN_greater hfirst) hthird, greater_eq hfirst (isNaN_greater hsecond),
    greater_eq hfirst hsecond, greater_eq hsecond hthird]
  by_cases hone : rankOf second < rankOf first <;> by_cases htwo : rankOf third < rankOf second <;>
    by_cases hall : rankOf third < rankOf first <;> simp [hone, htwo, hall]
  · exact absurd (htwo.trans hone) hall
  · exact absurd ((not_lt.mp htwo).trans_lt hall) hone

theorem greater_comm {left right : Float} (hsame : (left == right) = true → left = right)
    (before : Float) :
    greater (greater before left) right = greater (greater before right) left := by
  cases hleft : left.isNaN with
  | true => rw [greater_isNaN hleft, greater_isNaN hleft]
  | false =>
      cases hright : right.isNaN with
      | true => rw [greater_isNaN hright, greater_isNaN hright]
      | false =>
          have hcomm := greater_comm_numbers hleft hright hsame
          cases hbefore : before.isNaN with
          | true => rw [greater_of_isNaN hbefore, greater_of_isNaN hbefore, hcomm]
          | false => rw [greater_assoc_numbers hbefore hleft hright,
              greater_assoc_numbers hbefore hright hleft, hcomm]

theorem foldl_greater_perm {left right : List Float} (hperm : left.Perm right)
    (hunmixed : Unmixed left) (start : Float) :
    left.foldl greater start = right.foldl greater start :=
  hperm.foldl_eq' (fun first hfirst second hsecond before =>
    greater_comm (hunmixed first hfirst second hsecond) before) start

theorem greatest_eq_of_ne_nil {values : List Float} (hne : values ≠ []) :
    greatest values = some (values.foldl greater Float.nan) := by
  cases values with
  | nil => contradiction
  | cons first rest => rw [greatest, List.foldl_cons, greater_of_isNaN (by simp)]

theorem greatest_perm {left right : List Float} (hperm : left.Perm right)
    (hunmixed : Unmixed left) : greatest left = greatest right := by
  cases left with
  | nil => rw [List.nil_perm.mp hperm]
  | cons first rest =>
      have hne : right ≠ [] := by
        rintro rfl
        exact List.cons_ne_nil first rest hperm.eq_nil
      rw [greatest_eq_of_ne_nil (List.cons_ne_nil first rest), greatest_eq_of_ne_nil hne,
        foldl_greater_perm hperm hunmixed]

/-! Lengths. -/

/-- The order of children matters only where they mix values that are equal and yet differ. -/
theorem Network.Reorders.value_eq {network other : Network} {id : LengthId}
    {read : CoordinateId → Option Float} (hreorders : Reorders network other)
    (hbuilt : network.BuiltIn) (holder : network.Older) (hlt : id.index < network.lengths.size)
    (hunmixed : ∀ lower bound, network.BuiltOf id lower →
      network.formula? lower = some (.childrenMax bound) → Unmixed (bound.filterMap read))
    {value : Option Float} (hvalue : network.value read id = .ok value) :
    other.value read id = .ok value := by
  refine Likened.ok (value_likened holder (hreorders.older holder) hlt (fun _ => rfl)
    (fun operator _ _ _ _ hlhs hrhs => by rw [hlhs, hrhs])
    (fun lower _ => hreorders.alikeAt hbuilt lower)
    fun lower bound bound' hpath hbound hbound' => ?_) hvalue
  rw [greatest_perm ((hreorders.perm hbound hbound').filterMap read)
    (hunmixed lower bound hpath hbound)]
  exact .refl (fun _ => rfl) _

end RegionLayout
