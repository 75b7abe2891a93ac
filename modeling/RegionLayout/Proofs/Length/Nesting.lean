import RegionLayout.Proofs.Length.Enrollment
import RegionLayout.Proofs.Length.Evaluation

/-!
Chains and binaries nested to the left. A chain stops at its first operand that is absent, a binary
asks both sides; they come to the same where no operand fails after one that is absent. A chain that
is built operand by operand is the chain of all of them.
-/

namespace RegionLayout

/-! What one operand more makes of a chain. -/

namespace Compound

variable {value : LengthId → Evaluated}

/-- Joins one operand to what the operands before it came to. -/
def joinNext (value : LengthId → Evaluated) (before : Evaluated) (entry : Operator × Operand) :
    Evaluated :=
  match before with
  | .ok (some total) =>
    match entry.2.evaluate value with
    | .ok (some next) => .ok (some (entry.1.apply total next))
    | other => other
  | other => other

theorem lengths_chain_concat (operands : List Operand) (operators : List Operator)
    (operand : Operand) (operator : Operator) :
    (chain (operands ++ [operand]) (operators ++ [operator])).lengths =
      (chain operands operators).lengths ++ operand.length?.toList := by
  simp only [lengths, List.filterMap_append]
  cases operand <;> rfl

theorem chainOf_concat (first : Operand) (rest : List (Operator × Operand))
    (entry : Operator × Operand) : chainOf first (rest ++ [entry]) =
      chain (first :: rest.map (·.2) ++ [entry.2]) (rest.map (·.1) ++ [entry.1]) := by
  simp [chainOf]

theorem join_concat (rest : List (Operator × Operand)) (entry : Operator × Operand)
    (total : Float) :
    join value (rest ++ [entry]) total = joinNext value (join value rest total) entry := by
  induction rest generalizing total with
  | nil =>
      obtain ⟨operator, operand⟩ := entry
      cases hoperand : operand.evaluate value with
      | error failure => simp [join, joinNext, hoperand]
      | ok next => cases next <;> simp [join, joinNext, hoperand]
  | cons first rest ih =>
      obtain ⟨operator, operand⟩ := first
      simp only [List.cons_append, join]
      cases operand.evaluate value with
      | error failure => rfl
      | ok next =>
          cases next with
          | none => rfl
          | some next => exact ih _

theorem evaluate_chain_concat {operands : List Operand} {operators : List Operator}
    (hlength : operands.length = operators.length + 1) (operator : Operator) (operand : Operand) :
    (chain (operands ++ [operand]) (operators ++ [operator])).evaluate value =
      joinNext value ((chain operands operators).evaluate value) (operator, operand) := by
  cases operands with
  | nil => contradiction
  | cons first rest =>
      have hrest : operators.length = rest.length := (Nat.succ.inj hlength).symm
      have hzip : (operators ++ [operator]).zip (rest ++ [operand]) =
          operators.zip rest ++ [(operator, operand)] := List.zip_append hrest
      have hmatch : (operators ++ [operator]).length = (rest ++ [operand]).length := by
        rw [List.length_append, List.length_append, hrest, List.length_singleton,
          List.length_singleton]
      simp only [List.cons_append, evaluate, if_pos hrest, if_pos hmatch, hzip, join_concat]
      cases first.evaluate value with
      | error failure => rfl
      | ok start => cases start <;> rfl

theorem exists_absent_of_join {rest : List (Operator × Operand)} {total : Float}
    (habsent : join value rest total = .ok none) :
    ∃ entry ∈ rest, entry.2.evaluate value = .ok none := by
  induction rest generalizing total with
  | nil => exact nomatch habsent
  | cons first rest ih =>
      rw [join] at habsent
      split at habsent
      next =>
        obtain ⟨entry, hentry, hnone⟩ := ih habsent
        exact ⟨entry, List.mem_cons_of_mem _ hentry, hnone⟩
      next => exact ⟨first, List.mem_cons_self, habsent⟩

theorem exists_absent_of_chain {operands : List Operand} {operators : List Operator}
    (habsent : (chain operands operators).evaluate value = .ok none) :
    ∃ operand ∈ operands, operand.evaluate value = .ok none := by
  cases operands with
  | nil => contradiction
  | cons first rest =>
      simp only [evaluate] at habsent
      split at habsent
      next =>
        split at habsent
        next =>
          obtain ⟨entry, hentry, hnone⟩ := exists_absent_of_join habsent
          exact ⟨entry.2, List.mem_cons_of_mem _ (List.of_mem_zip hentry).2, hnone⟩
        next => exact ⟨first, List.mem_cons_self, habsent⟩
      next => contradiction

theorem evaluate_chain_of_mismatch {operands : List Operand} {operators : List Operator}
    (hlength : operators.length + 1 ≠ operands.length) :
    (chain operands operators).evaluate value =
      .error (.arithmeticMismatch operands.length operators.length) := by
  cases operands with
  | nil => rfl
  | cons first rest =>
      rw [evaluate, if_neg fun heq => hlength (congrArg (· + 1) heq)]

/-- A binary asks its right side even if the left is absent, so it sees a failure there. -/
theorem evaluate_binary {operator : Operator} {operand : Operand} {lhs rhs : LengthId}
    (hrhs : value rhs = operand.evaluate value)
    (htimely : value lhs = .ok none → ∀ failure, operand.evaluate value ≠ .error failure) :
    (binary operator lhs rhs).evaluate value =
      joinNext value (value lhs) (operator, operand) := by
  simp only [evaluate, joinNext, hrhs]
  cases hlhs : value lhs with
  | error failure => rfl
  | ok left =>
      cases hoperand : operand.evaluate value with
      | error failure =>
          cases left with
          | none => exact absurd hoperand (htimely hlhs failure)
          | some total => rfl
      | ok right => cases left <;> cases right <;> rfl

end Compound

/-- No operand fails after one that is absent. -/
def Operand.Timely (value : LengthId → Evaluated) (operands : List Operand) : Prop :=
  operands.Pairwise fun earlier later =>
    earlier.evaluate value = .ok none → ∀ failure, later.evaluate value ≠ .error failure

namespace Network

/-! Binaries nested to the left. -/

/-- A length that says what an operand says: itself, or a constant. -/
def StandsFor (network : Network) (id : LengthId) : Operand → Prop
  | .length other => id = other
  | .value number => network.formula? id = some (.constant number)

/-- A length is made of binaries, nested to the left, of the operands and operators of a chain. -/
inductive Nests (network : Network) : List Operand → List Operator → LengthId → Prop
  | first {operand : Operand} {id : LengthId} (hstands : network.StandsFor id operand) :
      Nests network [operand] [] id
  | next {operands : List Operand} {operators : List Operator} {operator : Operator}
      {operand : Operand} {id lhs rhs : LengthId} {tally : PrerequisiteTally}
      (hlhs : Nests network operands operators lhs) (hrhs : network.StandsFor rhs operand)
      (hformula : network.formula? id = some (.compound (.binary operator lhs rhs) tally)) :
      Nests network (operands ++ [operand]) (operators ++ [operator]) id

section Value

variable {network : Network} {read : CoordinateId → Option Float} {operands : List Operand}
  {operators : List Operator} {id nest : LengthId}

theorem Nests.length (hnests : network.Nests operands operators nest) :
    operands.length = operators.length + 1 := by
  induction hnests with
  | first hstands => rfl
  | next hlhs hrhs hformula ih => simp only [List.length_append, ih, List.length_singleton]

variable (holder : network.Older)

include holder

theorem StandsFor.value {operand : Operand} (hstands : network.StandsFor id operand) :
    network.value read id = operand.evaluate (network.value read) := by
  cases operand with
  | length other => exact congrArg _ hstands
  | value number => exact value_eq holder hstands

theorem Nests.value (hnests : network.Nests operands operators nest)
    (htimely : Operand.Timely (network.value read) operands) :
    network.value read nest =
      (Compound.chain operands operators).evaluate (network.value read) := by
  induction hnests with
  | first hstands =>
      rw [hstands.value holder]
      simp only [Compound.evaluate, List.length_nil, if_true]
      split
      next start hstart => exact hstart
      next => rfl
  | @next operands operators operator operand id lhs rhs tally hlhs hrhs hformula ih =>
      obtain ⟨hbefore, _, hlast⟩ := List.pairwise_append.mp htimely
      have hvalue := ih hbefore
      rw [Compound.evaluate_chain_concat hlhs.length, ← hvalue, value_eq holder hformula]
      -- The binary asks its right side even if the left is absent, where the chain has stopped.
      refine Compound.evaluate_binary (hrhs.value holder) fun habsent => ?_
      obtain ⟨earlier, hearlier, hnone⟩ := Compound.exists_absent_of_chain (hvalue ▸ habsent)
      exact hlast earlier hearlier operand (List.mem_singleton_self _) hnone

end Value

/-! Building them. -/

/-- The length that stands for an operand, a new constant for a number. -/
def lengthFor (network : Network) : Operand → LengthId × Network
  | .length id => (id, network)
  | .value number => network.add (.constant number)

/-- Nests binaries to the left, the innermost around a length that is there. -/
def nestOn (network : Network) (lhs : LengthId) : List (Operator × Operand) → LengthId × Network
  | [] => (lhs, network)
  | (operator, operand) :: rest =>
    let (rhs, network) := network.lengthFor operand
    let (lhs, network) := network.addCompound (.binary operator lhs rhs)
    network.nestOn lhs rest

def nestOf (network : Network) (first : Operand) (rest : List (Operator × Operand)) :
    LengthId × Network :=
  let (lhs, network) := network.lengthFor first
  network.nestOn lhs rest

/-- Every length of a network is in another as it was. -/
def Extends (network after : Network) : Prop :=
  ∀ id formula, network.formula? id = some formula → after.formula? id = some formula

section Extends

variable {network after : Network} {operands : List Operand} {operators : List Operator}
  {operand : Operand} {id : LengthId}

theorem StandsFor.extends (hextends : Extends network after)
    (hstands : network.StandsFor id operand) : after.StandsFor id operand := by
  cases operand with
  | length other => exact hstands
  | value number => exact hextends id _ hstands

theorem Nests.extends (hextends : Extends network after)
    (hnests : network.Nests operands operators id) : after.Nests operands operators id := by
  induction hnests with
  | first hstands => exact .first (hstands.extends hextends)
  | next hlhs hrhs hformula ih =>
      exact .next ih (hrhs.extends hextends) (hextends _ _ hformula)

theorem extends_add (network : Network) (formula : Formula) :
    Extends network (network.add formula).2 := by
  intro id other hother
  have hne : id ≠ (network.add formula).1 := Grows.ne_of_lt (formula?_eq_some_lt hother)
  rw [formula?_add, if_neg hne, hother]

theorem formula?_addCompound (network : Network) (shape : Compound) (id : LengthId) :
    (network.addCompound shape).2.formula? id =
      if id = (network.addCompound shape).1 then
        some (.compound shape (network.tallyOf shape.lengths))
      else network.formula? id := by
  refine Eq.trans ?_ (formula?_add network id (.compound shape (network.tallyOf shape.lengths)))
  exact List.foldlRecOn shape.lengths _
    (motive := fun after : Network => after.formula? id = (network.add _).2.formula? id) rfl
    fun after hafter operand _ => (formula?_subscribeBoth after operand id _).trans hafter

theorem extends_addCompound (network : Network) (shape : Compound) :
    Extends network (network.addCompound shape).2 := by
  intro id other hother
  have hne : id ≠ (network.addCompound shape).1 := Grows.ne_of_lt (formula?_eq_some_lt hother)
  rw [formula?_addCompound, if_neg hne, hother]

theorem standsFor_lengthFor (network : Network) (operand : Operand) :
    (network.lengthFor operand).2.StandsFor (network.lengthFor operand).1 operand ∧
      Extends network (network.lengthFor operand).2 := by
  cases operand with
  | length other => exact ⟨rfl, fun _ _ hformula => hformula⟩
  | value number =>
      refine ⟨?_, extends_add network _⟩
      exact (formula?_add network _ _).trans (if_pos rfl)

theorem nests_nestOn (rest : List (Operator × Operand))
    (hnests : network.Nests operands operators id) :
    (network.nestOn id rest).2.Nests (operands ++ rest.map (·.2)) (operators ++ rest.map (·.1))
      (network.nestOn id rest).1 := by
  induction rest generalizing network operands operators id with
  | nil => simpa [nestOn] using hnests
  | cons entry rest ih =>
      obtain ⟨operator, operand⟩ := entry
      obtain ⟨hstands, hwider⟩ := standsFor_lengthFor network operand
      simp only [nestOn]
      generalize network.lengthFor operand = wrapped at hstands hwider
      have hgrown := extends_addCompound wrapped.2 (.binary operator id wrapped.1)
      have hnext : (wrapped.2.addCompound (.binary operator id wrapped.1)).2.Nests
          (operands ++ [operand]) (operators ++ [operator])
          (wrapped.2.addCompound (.binary operator id wrapped.1)).1 :=
        .next ((hnests.extends hwider).extends hgrown) (hstands.extends hgrown)
          ((formula?_addCompound _ _ _).trans (if_pos rfl))
      simpa only [List.map_cons, List.append_assoc, List.singleton_append] using ih hnext

theorem nests_nestOf (network : Network) (first : Operand) (rest : List (Operator × Operand)) :
    (network.nestOf first rest).2.Nests (first :: rest.map (·.2)) (rest.map (·.1))
      (network.nestOf first rest).1 :=
  nests_nestOn rest (.first (standsFor_lengthFor network first).1)

end Extends

/-! Chains that are built operand by operand. -/

def startChain (network : Network) (first : Operand) : LengthId × Network :=
  network.addCompound (.chain [first] [])

/-- Appends an operand to a chain that nothing hears of yet. -/
def extendChain (id : LengthId) (network : Network) (entry : Operator × Operand) : Network :=
  match network.formula? id with
  | some (.compound (.chain operands operators) tally) =>
    let longer := Compound.chain (operands ++ [entry.2]) (operators ++ [entry.1])
    match entry.2 with
    | .length operand =>
      (network.setFormula id (.compound longer
        (tally.apply (.adding (network.prerequisites operand))).2)).subscribeBoth operand
          (.operandOf id)
    | .value _ => network.setFormula id (.compound longer tally)
  | _ => network

/-- Starts a chain and appends the rest to it. -/
def buildChain (network : Network) (first : Operand) (rest : List (Operator × Operand)) :
    LengthId × Network :=
  let (id, network) := network.startChain first
  (id, rest.foldl (extendChain id) network)

section Stepwise

variable {network : Network} {id : LengthId}

theorem edit_comm (network : Network) (id other : LengthId) {first second : Length → Length}
    (hcomm : ∀ length, first (second length) = second (first length)) :
    (network.edit id first).edit other second = (network.edit other second).edit id first := by
  refine congrArg (Network.mk · network.journal) (Array.ext_getElem? fun index => ?_)
  simp only [edit, Array.getElem?_modify]
  cases network.lengths[index]? with
  | none => simp
  | some length => by_cases hid : id.index = index <;> by_cases hother : other.index = index <;>
      simp [hid, hother, hcomm]

theorem setFormula_subscribe {other : LengthId} (hne : other ≠ id) (formula : Formula)
    (channel : Channel) (listener : Listener) :
    (network.subscribe channel other listener).setFormula id formula =
      (network.setFormula id formula).subscribe channel other listener := by
  have hchannel : (network.setFormula id formula).channelOf other = network.channelOf other := by
    rw [channelOf, formula?_setFormula, if_neg hne, channelOf]
  rw [subscribe, subscribe, hchannel]
  exact edit_comm network _ id fun length => by cases channel <;> rfl

/-- Puts a compound on the rosters of its operands. -/
def seat (compound : LengthId) (network : Network) (operands : List LengthId) : Network :=
  operands.foldl
    (fun network operand => network.subscribeBoth operand (.operandOf compound)) network

theorem addCompound_eq (network : Network) (shape : Compound) :
    (network.addCompound shape).2 = seat ⟨network.lengths.size⟩
      (network.add (.compound shape (network.tallyOf shape.lengths))).2 shape.lengths := rfl

theorem seat_concat (compound : LengthId) (network : Network) (operands : List LengthId)
    (operand : LengthId) : seat compound network (operands ++ [operand]) =
      (seat compound network operands).subscribeBoth operand (.operandOf compound) := by
  rw [seat, List.foldl_append, List.foldl_cons, List.foldl_nil, seat]

theorem setFormula_seat {operands : List LengthId} (hne : ∀ operand ∈ operands, operand ≠ id)
    (formula : Formula) (network : Network) :
    (seat id network operands).setFormula id formula =
      seat id (network.setFormula id formula) operands := by
  induction operands generalizing network with
  | nil => rfl
  | cons first rest ih =>
      obtain ⟨hfirst, hrest⟩ := List.forall_mem_cons.mp hne
      rw [seat, List.foldl_cons, ← seat, ih hrest]
      simp only [seat, List.foldl_cons, subscribeBoth, setFormula_subscribe hfirst]

theorem setFormula_add (network : Network) (formula other : Formula) :
    (network.add formula).2.setFormula (network.add formula).1 other = (network.add other).2 := by
  refine congrArg (Network.mk · network.journal) (Array.ext_getElem? fun index => ?_)
  simp only [add, Array.getElem?_modify, Array.getElem?_push]
  by_cases hindex : index = network.lengths.size
  · simp [hindex]
  · simp [hindex, Ne.symm hindex]

/-- A new compound that is given another formula has it from the start. -/
theorem setFormula_addCompound (network : Network) {shape : Compound}
    (hlt : ∀ operand ∈ shape.lengths, operand.index < network.lengths.size) (formula : Formula) :
    (network.addCompound shape).2.setFormula ⟨network.lengths.size⟩ formula =
      seat ⟨network.lengths.size⟩ (network.add formula).2 shape.lengths := by
  rw [addCompound_eq, setFormula_seat fun operand hoperand => Grows.ne_of_lt (hlt operand hoperand)]
  exact congrArg (seat _ · _) (setFormula_add network _ formula)

theorem extendChain_addCompound (hbuilt : network.BuiltIn) {first : Operand}
    {rest : List (Operator × Operand)} {entry : Operator × Operand}
    (hlt : ∀ operand ∈ (Compound.chainOf first (rest ++ [entry])).lengths,
      operand.index < network.lengths.size) :
    extendChain ⟨network.lengths.size⟩ (network.addCompound (.chainOf first rest)).2 entry =
      (network.addCompound (.chainOf first (rest ++ [entry]))).2 := by
  obtain ⟨operator, operand⟩ := entry
  have hlengths : (Compound.chainOf first (rest ++ [(operator, operand)])).lengths =
      (Compound.chainOf first rest).lengths ++ operand.length?.toList := by
    rw [Compound.chainOf_concat, Compound.lengths_chain_concat, Compound.chainOf]
  have hlt' : ∀ operand ∈ (Compound.chainOf first rest).lengths,
      operand.index < network.lengths.size := fun operand hoperand =>
    hlt operand (hlengths ▸ List.mem_append_left _ hoperand)
  have hformula : (network.addCompound (.chainOf first rest)).2.formula? ⟨network.lengths.size⟩ =
      some (.compound (.chain (first :: rest.map (·.2)) (rest.map (·.1)))
        (network.tallyOf (Compound.chainOf first rest).lengths)) :=
    (formula?_addCompound network _ _).trans (if_pos rfl)
  have hlonger := Compound.chainOf_concat first rest (operator, operand)
  rw [extendChain, hformula, addCompound_eq network (.chainOf first (rest ++ _)), hlengths]
  cases operand with
  | value number =>
      simp only [← hlonger, setFormula_addCompound network hlt', Operand.length?,
        Option.toList_none, List.append_nil]
  | length id =>
      have hid : id.index < network.lengths.size :=
        hlt id (hlengths ▸ List.mem_append_right _ (List.mem_singleton_self id))
      have hgrows := grows_addCompound hbuilt hlt'
      have hreads : (network.addCompound (.chainOf first rest)).2.prerequisites id =
          network.prerequisites id := by
        rw [(hgrows.builtIn hbuilt rfl).prerequisites, hbuilt.prerequisites,
          hgrows.reads_of_ne (Grows.ne_of_lt hid)]
      simp only [← hlonger, hreads, setFormula_addCompound network hlt', Operand.length?,
        Option.toList_some, seat_concat, tallyOf, List.foldl_append, List.foldl_cons,
        List.foldl_nil]

theorem foldl_extendChain (hbuilt : network.BuiltIn) {first : Operand}
    (done : List (Operator × Operand)) {rest : List (Operator × Operand)}
    (hlt : ∀ operand ∈ (Compound.chainOf first (done ++ rest)).lengths,
      operand.index < network.lengths.size) :
    rest.foldl (extendChain ⟨network.lengths.size⟩) (network.addCompound (.chainOf first done)).2 =
      (network.addCompound (.chainOf first (done ++ rest))).2 := by
  induction rest generalizing done with
  | nil => rw [List.append_nil, List.foldl_nil]
  | cons entry rest ih =>
      rw [List.append_cons] at hlt ⊢
      rw [List.foldl_cons, extendChain_addCompound hbuilt fun operand hoperand => hlt operand ?_,
        ih _ hlt]
      simp only [Compound.chainOf, Compound.lengths, List.map_append, ← List.cons_append,
        List.filterMap_append] at hoperand ⊢
      exact List.mem_append_left _ hoperand

theorem buildChain_eq (hbuilt : network.BuiltIn) {first : Operand}
    {rest : List (Operator × Operand)}
    (hlt : ∀ operand ∈ (Compound.chainOf first rest).lengths,
      operand.index < network.lengths.size) :
    network.buildChain first rest = network.addCompound (.chainOf first rest) :=
  Prod.ext rfl (foldl_extendChain hbuilt [] hlt)

end Stepwise

end Network

end RegionLayout
