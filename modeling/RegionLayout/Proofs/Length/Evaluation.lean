import RegionLayout.Length.Evaluation
import RegionLayout.Proofs.Length.Ledger

/-!
Evaluation of built-in lengths. With operands older than their compounds the fuel does not matter; a
length reads nothing but its prerequisites; and where the formulas it is built of are alike, up to
the order in which children are listed, it comes to the same.
-/

namespace RegionLayout

/-! One formula: what it comes to is determined by its operands and by what it reads. -/

section Formula

variable {value other : LengthId → Evaluated}

theorem Operand.evaluate_congr {operand : Operand}
    (hsame : ∀ id, operand.length? = some id → value id = other id) :
    operand.evaluate value = operand.evaluate other := by
  cases operand with
  | length id => exact hsame id rfl
  | value number => rfl

theorem Compound.join_congr {rest : List (Operator × Operand)}
    (hsame : ∀ entry ∈ rest, ∀ id, entry.2.length? = some id → value id = other id)
    (total : Float) : join value rest total = join other rest total := by
  induction rest generalizing total with
  | nil => rfl
  | cons entry rest ih =>
      obtain ⟨operator, operand⟩ := entry
      have hfirst := Operand.evaluate_congr (hsame (operator, operand) List.mem_cons_self)
      have hrest := ih fun entry hentry => hsame entry (List.mem_cons_of_mem _ hentry)
      simp only [join, hfirst]
      split
      · exact hrest _
      · rfl

theorem Compound.evaluate_congr {shape : Compound}
    (hsame : ∀ id ∈ shape.lengths, value id = other id) :
    shape.evaluate value = shape.evaluate other := by
  cases shape with
  | fallback preferred alternative =>
      simp only [evaluate, hsame preferred (by simp [lengths]),
        hsame alternative (by simp [lengths])]
  | binary operator lhs rhs =>
      simp only [evaluate, hsame lhs (by simp [lengths]), hsame rhs (by simp [lengths])]
  | chain operands operators =>
      cases operands with
      | nil => rfl
      | cons first rest =>
          have hall : ∀ operand ∈ first :: rest, ∀ id, operand.length? = some id →
              value id = other id := fun operand hoperand id hid =>
            hsame id (List.mem_filterMap.mpr ⟨operand, hoperand, hid⟩)
          have hfirst := Operand.evaluate_congr (hall first List.mem_cons_self)
          have hrest : ∀ total, join value (operators.zip rest) total =
              join other (operators.zip rest) total :=
            join_congr fun entry hentry =>
              hall entry.2 (List.mem_cons_of_mem _ (List.of_mem_zip hentry).2)
          simp only [evaluate, hfirst, hrest]

theorem Formula.evaluate_congr {read : CoordinateId → Option Float} {formula : Formula}
    (hsame : ∀ id ∈ formula.operands, value id = other id) :
    formula.evaluate read value = formula.evaluate read other := by
  cases formula with
  | compound shape tally => exact Compound.evaluate_congr hsame
  | tracer own => exact hsame own.inner (List.mem_singleton_self _)
  | _ => rfl

end Formula

namespace Network

variable {network : Network} {read : CoordinateId → Option Float} {id : LengthId}

theorem valueAt_eq (holder : network.Older) {depth deeper : Nat} (hdepth : id.index < depth)
    (hdeeper : id.index < deeper) :
    network.valueAt read depth id = network.valueAt read deeper id := by
  induction depth generalizing deeper id with
  | zero => exact absurd hdepth (Nat.not_lt_zero _)
  | succ depth ih =>
      cases deeper with
      | zero => exact absurd hdeeper (Nat.not_lt_zero _)
      | succ deeper =>
          cases hformula : network.formula? id with
          | none => simp only [valueAt, hformula]
          | some formula =>
              simp only [valueAt, hformula]
              refine Formula.evaluate_congr fun operand hoperand => ?_
              have hless := holder id operand (by simpa [operandsAt, hformula] using hoperand)
              exact ih (by omega) (by omega)

theorem value_eq (holder : network.Older) {formula : Formula}
    (hformula : network.formula? id = some formula) :
    network.value read id = formula.evaluate read (network.value read) := by
  have hlt := formula?_eq_some_lt hformula
  rw [value, valueAt_eq holder hlt (Nat.lt_succ_of_lt hlt), valueAt, hformula]
  refine Formula.evaluate_congr fun operand hoperand => ?_
  have hless := holder id operand (by simpa [operandsAt, hformula] using hoperand)
  exact valueAt_eq holder (hless.trans hlt) (hless.trans hlt)

theorem value_none (hformula : network.formula? id = none) :
    network.value read id = .ok none := by
  unfold value
  cases network.lengths.size with
  | zero => rfl
  | succ depth => rw [valueAt, hformula]

end Network

/-! How an evaluation fails. -/

/-- A failure of evaluation is about a length, and never about a cycle. -/
def LayoutError.isCycle : LayoutError → Bool
  | .cycle _ => true
  | _ => false

section Failure

variable {value : LengthId → Evaluated} {failure : LayoutError}
  (hvalue : ∀ id failure, value id = .error failure → failure.isCycle = false)

include hvalue

theorem Operand.isCycle_of_evaluate {operand : Operand}
    (hfails : operand.evaluate value = .error failure) : failure.isCycle = false := by
  cases operand with
  | length id => exact hvalue id failure hfails
  | value number => contradiction

theorem Compound.isCycle_of_join {rest : List (Operator × Operand)} {total : Float}
    (hfails : join value rest total = .error failure) : failure.isCycle = false := by
  induction rest generalizing total with
  | nil => contradiction
  | cons entry rest ih =>
      rw [join] at hfails
      split at hfails
      next => exact ih hfails
      next => exact Operand.isCycle_of_evaluate hvalue hfails

theorem Compound.isCycle_of_evaluate {shape : Compound}
    (hfails : shape.evaluate value = .error failure) : failure.isCycle = false := by
  cases shape with
  | fallback preferred alternative =>
      rw [evaluate] at hfails
      split at hfails
      next => exact hvalue alternative failure hfails
      next => exact hvalue preferred failure hfails
  | binary operator lhs rhs =>
      rw [evaluate] at hfails
      cases hlhs : value lhs with
      | error other =>
          rw [hlhs] at hfails
          exact hvalue lhs failure (hlhs.trans (congrArg _ (Except.error.inj hfails)))
      | ok left =>
          rw [hlhs] at hfails
          cases hrhs : value rhs with
          | error other =>
              rw [hrhs] at hfails
              exact hvalue rhs failure (hrhs.trans (congrArg _ (Except.error.inj hfails)))
          | ok right =>
              rw [hrhs] at hfails
              cases left <;> cases right <;> contradiction
  | chain operands operators =>
      cases operands with
      | nil =>
          rw [← Except.error.inj hfails]
          rfl
      | cons first rest =>
          simp only [evaluate] at hfails
          split at hfails
          next =>
            split at hfails
            next => exact isCycle_of_join hvalue hfails
            next => exact Operand.isCycle_of_evaluate hvalue hfails
          next =>
            rw [← Except.error.inj hfails]
            rfl

theorem Formula.isCycle_of_evaluate {read : CoordinateId → Option Float} {formula : Formula}
    (hbuilt : formula.isBuiltIn = true) (hfails : formula.evaluate read value = .error failure) :
    failure.isCycle = false := by
  cases formula with
  | constant number => contradiction
  | ancestorSpan span => contradiction
  | childrenMax bound =>
      rw [evaluate] at hfails
      split at hfails <;> contradiction
  | sibling own =>
      rw [evaluate, Sibling.value] at hfails
      split at hfails
      next => contradiction
      next =>
        split at hfails
        next =>
          rw [← Except.error.inj hfails]
          rfl
        next => contradiction
  | compound shape tally => exact Compound.isCycle_of_evaluate hvalue hfails
  | probe own => exact absurd hbuilt Bool.false_ne_true
  | tracer own => exact absurd hbuilt Bool.false_ne_true

end Failure

theorem Network.isCycle_of_value {network : Network} (hbuilt : network.BuiltIn)
    {read : CoordinateId → Option Float} {id : LengthId} {failure : LayoutError}
    (hfails : network.value read id = .error failure) : failure.isCycle = false := by
  rw [value] at hfails
  generalize network.lengths.size = depth at hfails
  induction depth generalizing id failure with
  | zero => contradiction
  | succ depth ih =>
      rw [valueAt] at hfails
      split at hfails
      next formula hformula =>
        exact Formula.isCycle_of_evaluate (fun _ _ => ih) (hbuilt id formula hformula) hfails
      next => contradiction

/-! What a length reads. -/

theorem Formula.evaluate_congr_read {read other : CoordinateId → Option Float}
    {value : LengthId → Evaluated} {formula : Formula} (hbuilt : formula.isBuiltIn = true)
    (hleaf : ∀ shape tally, formula ≠ .compound shape tally)
    (hsame : ∀ coordinate ∈ formula.prerequisites, read coordinate = other coordinate) :
    formula.evaluate read value = formula.evaluate other value := by
  cases formula with
  | constant number => rfl
  | ancestorSpan span =>
      simp only [prerequisites] at hsame
      simp only [evaluate, AncestorSpan.value]
      split
      next alpha beta hbound =>
        rw [hsame alpha (by simp [hbound]), hsame beta (by simp [hbound])]
      next => rfl
  | childrenMax bound =>
      have hvalues : bound.filterMap read = bound.filterMap other :=
        List.filterMap_congr fun coordinate hmem => hsame coordinate hmem
      simp only [evaluate, hvalues]
  | sibling sibling =>
      simp only [prerequisites] at hsame
      simp only [evaluate, Sibling.value]
      split
      next peer hpeer => rw [hsame peer (by simp [hpeer, Peer.coordinate?])]
      next => rfl
  | compound shape tally => exact absurd rfl (hleaf shape tally)
  | probe own => exact absurd hbuilt Bool.false_ne_true
  | tracer own => exact absurd hbuilt Bool.false_ne_true

namespace Network

variable {network : Network} {audience : Audience} {id : LengthId}

theorem Ledger.mem_reads_iff (hledger : Ledger network audience [])
    (hheld : audience.includes (.operandOf id) = true) {shape : Compound}
    {tally : PrerequisiteTally} (hformula : network.formula? id = some (.compound shape tally))
    {coordinate : CoordinateId} : coordinate ∈ network.reads id ↔
      ∃ operand ∈ shape.lengths, coordinate ∈ network.reads operand := by
  have hbalance := hledger.balanced id hheld shape tally hformula coordinate
  have hoperands : network.operandsAt id = shape.lengths := by
    simp [operandsAt, hformula, Formula.operands]
  have hcount : tally.count coordinate = network.holders id coordinate := by
    exact Int.ofNat_inj.mp (by simpa [owed] using hbalance)
  rw [reads_eq hformula, Formula.prerequisites,
    (hledger.valid id shape tally hformula).mem_members_iff, hcount, holders, hoperands,
    List.countP_pos_iff]
  simp

/-- Below a length, a compound reads whatever its operands read. -/
def Covers (network : Network) (id : LengthId) : Prop :=
  ∀ upper lower, network.BuiltOf id upper → lower ∈ network.operandsAt upper →
    ∀ coordinate ∈ network.reads lower, coordinate ∈ network.reads upper

theorem Ledger.covers (hledger : Ledger network audience []) (hlaid : network.Laid audience)
    (hheld : audience.includes (.operandOf id) = true) : network.Covers id := by
  intro upper lower hpath hoperand coordinate hread
  obtain ⟨shape, tally, hformula, hmem⟩ := hlaid.builtIn.exists_compound hoperand
  exact (hledger.mem_reads_iff (hlaid.closed_builtOf hheld hpath) hformula).mpr
    ⟨lower, hmem, hread⟩

theorem value_congr_read {read other : CoordinateId → Option Float} (hbuilt : network.BuiltIn)
    (holder : network.Older) (hcovers : network.Covers id)
    (hsame : ∀ coordinate ∈ network.reads id, read coordinate = other coordinate) :
    network.value read id = network.value other id := by
  -- Operands are older, and read nothing that the length does not list itself.
  induction hindex : id.index using Nat.strongRecOn generalizing id with
  | _ index ih =>
      subst hindex
      cases hformula : network.formula? id with
      | none => rw [value_none hformula, value_none hformula]
      | some formula =>
          rw [value_eq holder hformula, value_eq holder hformula]
          have hoperands : formula.evaluate other (network.value read) =
              formula.evaluate other (network.value other) := by
            refine Formula.evaluate_congr fun operand hoperand => ?_
            have hmem : operand ∈ network.operandsAt id := by
              simpa [operandsAt, hformula] using hoperand
            refine ih operand.index (holder id operand hmem)
              (fun upper lower hpath => hcovers upper lower (.head hmem hpath))
              (fun coordinate hread => ?_) rfl
            exact hsame coordinate (hcovers id operand .refl hmem coordinate hread)
          rw [← hoperands]
          by_cases hcompound : ∃ shape tally, formula = .compound shape tally
          · obtain ⟨shape, tally, rfl⟩ := hcompound
            rfl
          · rw [reads_eq hformula] at hsame
            exact Formula.evaluate_congr_read (hbuilt id formula hformula)
              (fun shape tally heq => hcompound ⟨shape, tally, heq⟩) hsame

end Network

/-! Results that are alike: both fail, both are absent, or their numbers are related. -/

inductive Likened (r : Float → Float → Prop) : Evaluated → Evaluated → Prop where
  | failed (left right : LayoutError) : Likened r (.error left) (.error right)
  | absent : Likened r (.ok none) (.ok none)
  | present {left right : Float} (hrelated : r left right) :
      Likened r (.ok (some left)) (.ok (some right))

section Likened

variable {r : Float → Float → Prop} {value other : LengthId → Evaluated}

theorem Likened.refl (hrefl : ∀ number, r number number) (result : Evaluated) :
    Likened r result result := by
  cases result with
  | error failure => exact .failed failure failure
  | ok number =>
      cases number with
      | none => exact .absent
      | some number => exact .present (hrefl number)

theorem Likened.ok {left right : Evaluated} {number : Option Float}
    (hlike : Likened Eq left right) (hleft : left = .ok number) : right = .ok number := by
  cases hlike with
  | failed => contradiction
  | absent => exact hleft
  | present hrelated => rw [← hrelated, hleft]

theorem Likened.exists_ok {left right : Evaluated} {number : Option Float}
    (hlike : Likened r left right) (hleft : left = .ok number) :
    ∃ other, right = .ok other ∧ other.isSome = number.isSome := by
  cases hlike with
  | failed => contradiction
  | absent => exact ⟨none, rfl, by rw [← Except.ok.inj hleft]⟩
  | present hrelated => exact ⟨_, rfl, by rw [← Except.ok.inj hleft]; rfl⟩

variable (hrefl : ∀ number, r number number)
  (happly : ∀ (operator : Operator) {lhs lhs' rhs rhs'}, r lhs lhs' → r rhs rhs' →
    r (operator.apply lhs rhs) (operator.apply lhs' rhs'))

include hrefl in
theorem Operand.evaluate_likened {operand : Operand}
    (hlike : ∀ id, operand.length? = some id → Likened r (value id) (other id)) :
    Likened r (operand.evaluate value) (operand.evaluate other) := by
  cases operand with
  | length id => exact hlike id rfl
  | value number => exact .present (hrefl number)

include hrefl happly

theorem Compound.join_likened {rest : List (Operator × Operand)}
    (hlike : ∀ entry ∈ rest, ∀ id, entry.2.length? = some id → Likened r (value id) (other id))
    {total total' : Float} (htotal : r total total') :
    Likened r (join value rest total) (join other rest total') := by
  induction rest generalizing total total' with
  | nil => exact .present htotal
  | cons entry rest ih =>
      obtain ⟨operator, operand⟩ := entry
      have hfirst := Operand.evaluate_likened hrefl (hlike (operator, operand) List.mem_cons_self)
      have hrest := fun entry hentry => hlike entry (List.mem_cons_of_mem _ hentry)
      simp only [join]
      generalize operand.evaluate value = left at hfirst ⊢
      generalize operand.evaluate other = right at hfirst ⊢
      cases hfirst with
      | failed failure failure' => exact .failed failure failure'
      | absent => exact .absent
      | present hrelated => exact ih hrest (happly operator htotal hrelated)

theorem Compound.evaluate_likened {shape : Compound}
    (hlike : ∀ id ∈ shape.lengths, Likened r (value id) (other id)) :
    Likened r (shape.evaluate value) (shape.evaluate other) := by
  cases shape with
  | fallback preferred alternative =>
      have hpreferred := hlike preferred (by simp [lengths])
      simp only [evaluate]
      generalize value preferred = left at hpreferred ⊢
      generalize other preferred = right at hpreferred ⊢
      cases hpreferred with
      | failed failure failure' => exact .failed failure failure'
      | absent => exact hlike alternative (by simp [lengths])
      | present hrelated => exact .present hrelated
  | binary operator lhs rhs =>
      have hlhs := hlike lhs (by simp [lengths])
      have hrhs := hlike rhs (by simp [lengths])
      simp only [evaluate]
      generalize value lhs = left at hlhs ⊢
      generalize other lhs = left' at hlhs ⊢
      generalize value rhs = right at hrhs ⊢
      generalize other rhs = right' at hrhs ⊢
      cases hlhs with
      | failed failure failure' => exact .failed failure failure'
      | absent =>
          cases hrhs with
          | failed failure failure' => exact .failed failure failure'
          | absent => exact .absent
          | present => exact .absent
      | present hrelated =>
          cases hrhs with
          | failed failure failure' => exact .failed failure failure'
          | absent => exact .absent
          | present hrelated' => exact .present (happly operator hrelated hrelated')
  | chain operands operators =>
      cases operands with
      | nil => exact .failed _ _
      | cons first rest =>
          have hall : ∀ operand ∈ first :: rest, ∀ id, operand.length? = some id →
              Likened r (value id) (other id) := fun operand hoperand id hid =>
            hlike id (List.mem_filterMap.mpr ⟨operand, hoperand, hid⟩)
          have hfirst := Operand.evaluate_likened hrefl (hall first List.mem_cons_self)
          have hrest : ∀ entry ∈ operators.zip rest, ∀ id, entry.2.length? = some id →
              Likened r (value id) (other id) := fun entry hentry =>
            hall entry.2 (List.mem_cons_of_mem _ (List.of_mem_zip hentry).2)
          simp only [evaluate]
          split
          next =>
            generalize first.evaluate value = left at hfirst ⊢
            generalize first.evaluate other = right at hfirst ⊢
            cases hfirst with
            | failed failure failure' => exact .failed failure failure'
            | absent => exact .absent
            | present hrelated => exact join_likened hrefl happly hrest hrelated
          next => exact .failed _ _

end Likened

/-! Formulas that are alike. -/

/-- The same formula, up to the order in which children are listed, to who owns a sibling, to why a
sibling has no peer, and to what a compound counts. -/
inductive Formula.Alike : Formula → Formula → Prop where
  | constant (value : Float) : Alike (.constant value) (.constant value)
  | ancestorSpan (span : AncestorSpan) : Alike (.ancestorSpan span) (.ancestorSpan span)
  | childrenMax {bound other : List CoordinateId} (hperm : bound.Perm other) :
      Alike (.childrenMax bound) (.childrenMax other)
  | sibling (own : Sibling) (owner : Option CoordinateId) {peer : Peer}
      (hpeer : peer.coordinate? = own.peer.coordinate?) :
      Alike (.sibling own) (.sibling { own with owner, peer })
  | compound (shape : Compound) (tally other : PrerequisiteTally) :
      Alike (.compound shape tally) (.compound shape other)

/-- The greatest of some values, if there are any. -/
def greatest : List Float → Option Float
  | [] => none
  | first :: rest => some (rest.foldl greater first)

namespace Formula

theorem Alike.refl {formula : Formula} (hbuilt : formula.isBuiltIn = true) :
    formula.Alike formula := by
  cases formula with
  | constant value => exact .constant value
  | ancestorSpan span => exact .ancestorSpan span
  | childrenMax bound => exact .childrenMax (List.Perm.refl bound)
  | sibling own => exact .sibling own own.owner rfl
  | compound shape tally => exact .compound shape tally tally
  | probe own => exact absurd hbuilt Bool.false_ne_true
  | tracer own => exact absurd hbuilt Bool.false_ne_true

theorem Alike.trans {first second third : Formula} (hfirst : first.Alike second)
    (hsecond : second.Alike third) : first.Alike third := by
  cases hfirst with
  | constant value => exact hsecond
  | ancestorSpan span => exact hsecond
  | childrenMax hperm =>
      cases hsecond with
      | childrenMax hperm' => exact .childrenMax (hperm.trans hperm')
  | sibling own owner hpeer =>
      cases hsecond with
      | sibling _ owner' hpeer' => exact .sibling own owner' (hpeer'.trans hpeer)
  | compound shape tally other =>
      cases hsecond with
      | compound _ _ other' => exact .compound shape tally other'

theorem Alike.operands_eq {first second : Formula} (halike : first.Alike second) :
    second.operands = first.operands := by
  cases halike <;> rfl

theorem evaluate_childrenMax (read : CoordinateId → Option Float)
    (value : LengthId → Evaluated) (bound : List CoordinateId) :
    (Formula.childrenMax bound).evaluate read value = .ok (greatest (bound.filterMap read)) := by
  rw [evaluate]
  cases bound.filterMap read <;> rfl

theorem value_sibling (own : Sibling) (read : CoordinateId → Option Float) :
    own.value read = match own.peer.coordinate? with
      | some peer => .ok ((read peer).map (· + own.offset))
      | none => if own.strict then .error (.noPreviousPeer own.owner) else .ok none := by
  rw [Sibling.value]
  cases own.peer <;> rfl

theorem Alike.evaluate_likened {r : Float → Float → Prop} {value other : LengthId → Evaluated}
    {read : CoordinateId → Option Float} {first second : Formula} (halike : first.Alike second)
    (hrefl : ∀ number, r number number)
    (happly : ∀ (operator : Operator) {lhs lhs' rhs rhs'}, r lhs lhs' → r rhs rhs' →
      r (operator.apply lhs rhs) (operator.apply lhs' rhs'))
    (hoperands : ∀ id ∈ first.operands, Likened r (value id) (other id))
    (hgreatest : ∀ bound bound', first = .childrenMax bound → second = .childrenMax bound' →
      Likened r (.ok (greatest (bound.filterMap read))) (.ok (greatest (bound'.filterMap read)))) :
    Likened r (first.evaluate read value) (second.evaluate read other) := by
  have hsame : ∀ result, Likened r result result := .refl hrefl
  cases halike with
  | constant number => exact hsame _
  | ancestorSpan span => exact hsame _
  | childrenMax hperm =>
      rw [evaluate_childrenMax, evaluate_childrenMax]
      exact hgreatest _ _ rfl rfl
  | sibling own owner hpeer =>
      simp only [evaluate, value_sibling, hpeer]
      cases own.peer.coordinate? with
      | some peer => exact hsame _
      | none =>
          cases own.strict with
          | true => exact .failed _ _
          | false => exact hsame _
  | compound shape tally tally' => exact Compound.evaluate_likened hrefl happly hoperands

end Formula

namespace Network

/-- The formulas of a length in two networks are alike. -/
def AlikeAt (network other : Network) (id : LengthId) : Prop :=
  ∀ formula, network.formula? id = some formula →
    ∃ formula', other.formula? id = some formula' ∧ formula.Alike formula'

theorem AlikeAt.trans {first second third : Network} {id : LengthId}
    (hfirst : AlikeAt first second id) (hsecond : AlikeAt second third id) :
    AlikeAt first third id := by
  intro formula hformula
  obtain ⟨formula', hformula', halike⟩ := hfirst formula hformula
  obtain ⟨formula'', hformula'', halike'⟩ := hsecond formula' hformula'
  exact ⟨formula'', hformula'', halike.trans halike'⟩

theorem value_likened {r : Float → Float → Prop} {network other : Network} {id : LengthId}
    {read : CoordinateId → Option Float} (holder : network.Older) (holder' : other.Older)
    (hlt : id.index < network.lengths.size)
    (hrefl : ∀ number, r number number)
    (happly : ∀ (operator : Operator) {lhs lhs' rhs rhs'}, r lhs lhs' → r rhs rhs' →
      r (operator.apply lhs rhs) (operator.apply lhs' rhs'))
    (halike : ∀ lower, network.BuiltOf id lower → AlikeAt network other lower)
    (hgreatest : ∀ lower bound bound', network.BuiltOf id lower →
      network.formula? lower = some (.childrenMax bound) →
      other.formula? lower = some (.childrenMax bound') →
      Likened r (.ok (greatest (bound.filterMap read))) (.ok (greatest (bound'.filterMap read)))) :
    Likened r (network.value read id) (other.value read id) := by
  induction hindex : id.index using Nat.strongRecOn generalizing id with
  | _ index ih =>
      subst hindex
      obtain ⟨formula, hformula⟩ := exists_formula?_of_lt hlt
      obtain ⟨formula', hformula', hlike⟩ := halike id .refl formula hformula
      rw [value_eq holder hformula, value_eq holder' hformula']
      refine hlike.evaluate_likened hrefl happly (fun operand hoperand => ?_)
        fun bound bound' hbound hbound' => hgreatest id bound bound' .refl (hbound ▸ hformula)
          (hbound' ▸ hformula')
      have hmem : operand ∈ network.operandsAt id := by
        simpa [operandsAt, hformula] using hoperand
      have hless := holder id operand hmem
      exact ih operand.index hless (hless.trans hlt)
        (fun lower hpath => halike lower (.head hmem hpath))
        (fun lower bound bound' hpath => hgreatest lower bound bound' (.head hmem hpath)) rfl

/-- One network is another with the children of its lengths listed in some other order. -/
structure Reorders (network other : Network) : Prop where
  size : other.lengths.size = network.lengths.size
  formula : ∀ id, other.formula? id = network.formula? id ∨ ∃ bound bound',
    network.formula? id = some (.childrenMax bound) ∧
      other.formula? id = some (.childrenMax bound') ∧ bound.Perm bound'

namespace Reorders

variable {network other : Network} {id : LengthId} {read : CoordinateId → Option Float}

theorem refl (network : Network) : Reorders network network :=
  ⟨rfl, fun _ => .inl rfl⟩

theorem symm (hreorders : Reorders network other) : Reorders other network where
  size := hreorders.size.symm
  formula id := by
    rcases hreorders.formula id with hsame | ⟨bound, bound', hbound, hbound', hperm⟩
    · exact .inl hsame.symm
    · exact .inr ⟨bound', bound, hbound', hbound, hperm.symm⟩

theorem operandsAt_eq (hreorders : Reorders network other) (id : LengthId) :
    other.operandsAt id = network.operandsAt id := by
  rcases hreorders.formula id with hsame | ⟨bound, bound', hbound, hbound', _⟩
  · rw [operandsAt, hsame, operandsAt]
  · simp [operandsAt, hbound, hbound', Formula.operands]

theorem builtOf_iff (hreorders : Reorders network other) {lower : LengthId} :
    other.BuiltOf id lower ↔ network.BuiltOf id lower := by
  rw [BuiltOf, BuiltOf, show other.operandsAt = network.operandsAt from
    funext hreorders.operandsAt_eq]

theorem mem_reads_iff (hreorders : Reorders network other) {coordinate : CoordinateId} :
    coordinate ∈ other.reads id ↔ coordinate ∈ network.reads id := by
  rcases hreorders.formula id with hsame | ⟨bound, bound', hbound, hbound', hperm⟩
  · rw [reads, hsame, reads]
  · rw [reads_eq hbound, reads_eq hbound']
    exact hperm.mem_iff.symm

theorem covers (hreorders : Reorders network other) (hcovers : network.Covers id) :
    other.Covers id := by
  intro upper lower hpath hoperand coordinate hread
  rw [hreorders.operandsAt_eq] at hoperand
  exact hreorders.mem_reads_iff.mpr (hcovers upper lower (hreorders.builtOf_iff.mp hpath) hoperand
    coordinate (hreorders.mem_reads_iff.mp hread))

theorem older (hreorders : Reorders network other) (holder : network.Older) : other.Older :=
  fun upper lower hmem => holder upper lower (hreorders.operandsAt_eq upper ▸ hmem)

theorem builtIn (hreorders : Reorders network other) (hbuilt : network.BuiltIn) :
    other.BuiltIn := by
  intro id formula hformula
  rcases hreorders.formula id with hsame | ⟨bound, bound', _, hbound', _⟩
  · exact hbuilt id formula (hsame ▸ hformula)
  · rw [hformula] at hbound'
    rw [Option.some.inj hbound']
    rfl

theorem alikeAt (hreorders : Reorders network other) (hbuilt : network.BuiltIn) (id : LengthId) :
    AlikeAt network other id := by
  intro formula hformula
  rcases hreorders.formula id with hsame | ⟨bound, bound', hbound, hbound', hperm⟩
  · exact ⟨formula, hsame.trans hformula, .refl (hbuilt id formula hformula)⟩
  · rw [hformula] at hbound
    obtain rfl := Option.some.inj hbound
    exact ⟨_, hbound', .childrenMax hperm⟩

theorem perm (hreorders : Reorders network other) {bound bound' : List CoordinateId}
    (hbound : network.formula? id = some (.childrenMax bound))
    (hbound' : other.formula? id = some (.childrenMax bound')) : bound.Perm bound' := by
  rcases hreorders.formula id with hsame | ⟨order, order', horder, horder', hperm⟩
  · rw [hsame, hbound] at hbound'
    rw [Formula.childrenMax.inj (Option.some.inj hbound')]
  · rw [hbound] at horder
    rw [hbound'] at horder'
    rw [Formula.childrenMax.inj (Option.some.inj horder),
      Formula.childrenMax.inj (Option.some.inj horder')]
    exact hperm

/-- The order of children does not decide whether a length has a value. -/
theorem exists_value (hreorders : Reorders network other) (hbuilt : network.BuiltIn)
    (holder : network.Older) (hlt : id.index < network.lengths.size) {value : Option Float}
    (hvalue : network.value read id = .ok value) :
    ∃ value', other.value read id = .ok value' ∧ value'.isSome = value.isSome := by
  refine Likened.exists_ok (value_likened (r := fun _ _ => True) holder (hreorders.older holder) hlt
    (fun _ => trivial) (fun _ => fun _ _ => trivial) (fun lower _ => hreorders.alikeAt hbuilt lower)
    fun lower bound bound' _ hbound hbound' => ?_) hvalue
  have hperm := (hreorders.perm hbound hbound').filterMap read
  generalize bound.filterMap read = values at hperm ⊢
  generalize bound'.filterMap read = values' at hperm ⊢
  cases values with
  | nil =>
      rw [List.nil_perm.mp hperm]
      exact .absent
  | cons first rest =>
      cases values' with
      | nil => exact absurd hperm.eq_nil (List.cons_ne_nil first rest)
      | cons first' rest' => exact .present trivial

end Reorders

end Network

/-! Orders carry over to networks whose formulas are alike. -/

def Formula.orderAs : Formula → Option Formula → Formula
  | .childrenMax bound, some (.childrenMax order) =>
    if bound.Perm order then .childrenMax order else .childrenMax bound
  | formula, _ => formula

namespace Network

/-- Lists children in the order of another network, where they are the same. -/
def orderAs (network other : Network) : Network :=
  { network with
    lengths := network.lengths.mapIdx fun index length =>
      { length with formula := length.formula.orderAs (other.formula? ⟨index⟩) } }

theorem formula?_orderAs (network other : Network) (id : LengthId) :
    (network.orderAs other).formula? id =
      (network.formula? id).map fun formula => formula.orderAs (other.formula? id) := by
  simp only [formula?, orderAs, Array.getElem?_mapIdx, Option.map_map]
  rfl

theorem reorders_orderAs (network other : Network) : Reorders network (network.orderAs other) where
  size := by simp [orderAs]
  formula id := by
    rw [formula?_orderAs]
    cases hformula : network.formula? id with
    | none => exact .inl rfl
    | some formula =>
        cases formula with
        | childrenMax bound =>
            cases horder : other.formula? id with
            | none => exact .inl rfl
            | some order =>
                cases order with
                | childrenMax order =>
                    by_cases hperm : bound.Perm order
                    · exact .inr ⟨bound, order, rfl, by simp [Formula.orderAs, hperm], hperm⟩
                    · exact .inl (by simp [Formula.orderAs, hperm])
                | _ => exact .inl rfl
        | _ => exact .inl rfl

/-- What a length came to under some order of children, it still comes to under some order after a
change that left all that it is built of alike. -/
theorem exists_reorders {network after other : Network} {id : LengthId}
    {read : CoordinateId → Option Float} (hbuilt : network.BuiltIn) (hbuilt' : after.BuiltIn)
    (holder : network.Older) (holder' : after.Older) (hlt : id.index < network.lengths.size)
    (halike : ∀ lower, network.BuiltOf id lower → AlikeAt network after lower)
    (hreorders : Reorders network other) {value : Option Float}
    (hvalue : other.value read id = .ok value) :
    ∃ other', Reorders after other' ∧ other'.value read id = .ok value := by
  have hafter := reorders_orderAs after other
  refine ⟨after.orderAs other, hafter, Likened.ok (value_likened (hreorders.older holder)
    (hafter.older holder') (by rwa [hreorders.size]) (fun _ => rfl)
    (fun operator _ _ _ _ hlhs hrhs => by rw [hlhs, hrhs]) (fun lower hpath => ?_)
    fun lower bound bound' hpath hbound hbound' => ?_) hvalue⟩
  · exact ((hreorders.symm.alikeAt (hreorders.builtIn hbuilt) lower).trans
      (halike lower (hreorders.builtOf_iff.mp hpath))).trans (hafter.alikeAt hbuilt' lower)
  · obtain ⟨formula, hformula, hlike⟩ := ((hreorders.symm.alikeAt (hreorders.builtIn hbuilt)
      lower).trans (halike lower (hreorders.builtOf_iff.mp hpath))) _ hbound
    cases hlike with
    | childrenMax hperm =>
        rw [formula?_orderAs, hformula, hbound, Option.map_some, Formula.orderAs,
          if_pos hperm.symm] at hbound'
        rw [Formula.childrenMax.inj (Option.some.inj hbound')]
        exact .refl (fun _ => rfl) _

end Network

end RegionLayout
