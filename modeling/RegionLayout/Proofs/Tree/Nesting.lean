import RegionLayout.Proofs.Length.Nesting
import RegionLayout.Proofs.Tree.Unions

/-!
Chains in a tree. A chain comes to what the binaries come to that nest its operands to the left, and
reads what they read; with the wrong number of operators it fails on every tree.
-/

namespace RegionLayout

namespace Network

theorem StandsFor.mem_prerequisites {network : Network} (hbuilt : network.BuiltIn)
    {operand : Operand} {id : LengthId} (hstands : network.StandsFor id operand)
    {coordinate : CoordinateId} : coordinate ∈ network.prerequisites id ↔
      ∃ length ∈ operand.length?.toList, coordinate ∈ network.prerequisites length := by
  cases operand with
  | length other => simp [Operand.length?, show id = other from hstands]
  | value number =>
      have hformula : network.formula? id = some (.constant number) := hstands
      simp [Operand.length?, hbuilt.prerequisites, reads, hformula, Formula.prerequisites]

end Network

namespace RegionTree

/-- A root of the tree, or what roots are built of. -/
def InUse (tree : RegionTree) (id : LengthId) : Prop :=
  ∃ root ∈ tree.roots, tree.network.BuiltOf root id

section Prerequisites

variable {tree : RegionTree} (hsound : tree.Sound)

include hsound

theorem Sound.mem_prerequisites_compound {id : LengthId} (hused : tree.InUse id) {shape : Compound}
    {tally : PrerequisiteTally} (hformula : tree.network.formula? id = some (.compound shape tally))
    {coordinate : CoordinateId} : coordinate ∈ tree.network.prerequisites id ↔
      ∃ operand ∈ shape.lengths, coordinate ∈ tree.network.prerequisites operand := by
  obtain ⟨root, hroot, hpath⟩ := hused
  exact (hsound.prerequisites_compound hroot hpath hformula).2 coordinate

theorem Sound.mem_prerequisites_nest {operands : List Operand} {operators : List Operator}
    {nest : LengthId} (hnests : tree.network.Nests operands operators nest)
    (hused : tree.InUse nest) {coordinate : CoordinateId} :
    coordinate ∈ tree.network.prerequisites nest ↔
      ∃ operand ∈ (Compound.chain operands operators).lengths,
        coordinate ∈ tree.network.prerequisites operand := by
  have hbuilt := hsound.network.laid.builtIn
  induction hnests with
  | @first operand id hstands =>
      rw [hstands.mem_prerequisites hbuilt]
      cases operand <;> simp [Operand.length?, Compound.lengths]
  | @next operands operators operator operand id lhs rhs tally hlhs hrhs hformula ih =>
      have husedLhs : tree.InUse lhs := by
        obtain ⟨root, hroot, hpath⟩ := hused
        refine ⟨root, hroot, hpath.tail ?_⟩
        simp [Network.operandsAt, hformula, Formula.operands, Compound.lengths]
      have hleft := ih husedLhs
      have hright : coordinate ∈ tree.network.prerequisites rhs ↔ _ := hrhs.mem_prerequisites hbuilt
      rw [hsound.mem_prerequisites_compound hused hformula, Compound.lengths_chain_concat]
      simp only [List.mem_append, or_and_right, exists_or, ← hleft, ← hright]
      simp [Compound.lengths]

end Prerequisites

/-- What chains have in common with binaries that are nested to the left. -/
structure ChainsNest (tree : RegionTree) : Prop where
  /-- They come to the same on every tree on which no operand fails after one that is absent. -/
  value : ∀ chain nest operands operators tally,
    tree.network.formula? chain = some (.compound (.chain operands operators) tally) →
      tree.network.Nests operands operators nest →
        ∀ other : RegionTree, Operand.Timely (tree.network.value other.relative) operands →
          tree.network.value other.relative chain = tree.network.value other.relative nest
  prerequisites : ∀ chain nest operands operators tally,
    tree.network.formula? chain = some (.compound (.chain operands operators) tally) →
      tree.network.Nests operands operators nest → tree.InUse chain → tree.InUse nest →
        ∀ coordinate, coordinate ∈ tree.network.prerequisites chain ↔
          coordinate ∈ tree.network.prerequisites nest
  /-- With the wrong number of operators, no operand matters. -/
  mismatch : ∀ chain operands operators tally,
    tree.network.formula? chain = some (.compound (.chain operands operators) tally) →
      operators.length + 1 ≠ operands.length →
        ∀ other : RegionTree, tree.network.value other.relative chain =
          .error (.arithmeticMismatch operands.length operators.length)
  /-- A chain that is built operand by operand is the chain of all of them. -/
  stepwise : ∀ first rest,
    (∀ operand ∈ (Compound.chainOf first rest).lengths, tree.InUse operand) →
      tree.network.buildChain first rest = tree.network.addCompound (.chainOf first rest)
  /-- The operands and operators of every chain can be nested. -/
  nested : ∀ first rest, (tree.network.nestOf first rest).2.Nests (first :: rest.map (·.2))
    (rest.map (·.1)) (tree.network.nestOf first rest).1

theorem chains_nest (actions : List TreeAction) : ChainsNest (acted actions) := by
  have hsound := Sound.acted actions
  have holder := hsound.network.laid.older
  refine ⟨fun chain nest operands operators tally hformula hnests other htimely => ?_,
    fun chain nest operands operators tally hformula hnests hchain hnest coordinate => ?_,
    fun chain operands operators tally hformula hlength other => ?_,
    fun first rest hused => ?_, fun first rest => Network.nests_nestOf _ first rest⟩
  · rw [Network.value_eq holder hformula, hnests.value holder htimely]
    rfl
  · rw [hsound.mem_prerequisites_compound hchain hformula,
      hsound.mem_prerequisites_nest hnests hnest]
  · rw [Network.value_eq holder hformula]
    exact Compound.evaluate_chain_of_mismatch hlength
  · refine Network.buildChain_eq hsound.network.laid.builtIn fun operand hoperand => ?_
    obtain ⟨root, hroot, hpath⟩ := hused operand hoperand
    exact hsound.network.laid.bounded operand
      (hsound.network.laid.closed_builtOf (hsound.includes_root hroot) hpath)

/-- The condition on the tree is needed: a span is absent before a sibling that is not there. -/
example :
    let tree := acted [.edit (.make "span" (.ancestorSpan 1 1.0)),
      .edit (.make "peer" (.sibling .beta true 0.0)),
      .edit (.make "chain" (.chain [.length "span", .length "peer"] [.add])),
      .edit (.make "nested" (.binary .add "span" "peer"))]
    tree.network.value tree.relative ⟨2⟩ = .ok none ∧
      tree.network.value tree.relative ⟨3⟩ = .error (.noPreviousPeer none) := by
  decide +kernel

/-- A span times two less ten, as a chain and nested, and the chain is the recipe of a cell. -/
def doubled : List TreeAction :=
  [.edit (.make "zero" (.constant 0.0)), .edit (.make "ten" (.constant 10.0)),
    .edit (.make "wide" (.ancestorSpan 1 1.0)),
    .edit (.make "chain" (.chain [.length "wide", .value 2.0, .length "ten"]
      [.multiply, .subtract])),
    .edit (.make "two" (.constant 2.0)), .edit (.make "product" (.binary .multiply "wide" "two")),
    .edit (.make "nested" (.binary .subtract "product" "ten")),
    .edit (.createRoot ⟨"zero", "ten", "zero", "ten"⟩),
    .edit (.createCell ⟨"zero", "chain", "zero", "zero"⟩), .edit (.append ⟨0⟩ ⟨1⟩)]

/-- The edges of the root on one axis are calculated too. -/
def doubledWide : List TreeAction :=
  doubled ++ [.calculate ⟨⟨0⟩, .x, .alpha⟩, .calculate ⟨⟨0⟩, .x, .beta⟩]

set_option maxRecDepth 4000 in
/-- They are absent alike while the root has no values, they come to the same number once it has
some, and both read the root. -/
theorem doubled_nests :
    (acted doubled).network.value (acted doubled).relative ⟨3⟩ =
      (acted doubled).network.value (acted doubled).relative ⟨6⟩ ∧
    (acted doubled).network.value (acted doubled).relative ⟨6⟩ = .ok none ∧
    (acted doubled).network.value (acted doubledWide).relative ⟨3⟩ =
      (acted doubled).network.value (acted doubledWide).relative ⟨6⟩ ∧
    (acted doubled).network.value (acted doubledWide).relative ⟨6⟩ = .ok (some 10.0) ∧
    (⟨⟨0⟩, .x, .beta⟩ ∈ (acted doubled).network.prerequisites ⟨3⟩ ↔
      ⟨⟨0⟩, .x, .beta⟩ ∈ (acted doubled).network.prerequisites ⟨6⟩) := by
  have hchain : (acted doubled).network.formula? ⟨3⟩ = some (.compound (.chain
      [.length ⟨2⟩, .value 2.0, .length ⟨1⟩] [.multiply, .subtract])
      ⟨[(⟨⟨0⟩, .x, .alpha⟩, 1), (⟨⟨0⟩, .x, .beta⟩, 1)]⟩) := by
    rfl
  have htwo : (acted doubled).network.StandsFor ⟨4⟩ (.value 2.0) := by rfl
  have hproduct : (acted doubled).network.formula? ⟨5⟩ = some (.compound
      (.binary .multiply ⟨2⟩ ⟨4⟩) ⟨[(⟨⟨0⟩, .x, .alpha⟩, 1), (⟨⟨0⟩, .x, .beta⟩, 1)]⟩) := by
    rfl
  have hnested : (acted doubled).network.formula? ⟨6⟩ = some (.compound
      (.binary .subtract ⟨5⟩ ⟨1⟩) ⟨[(⟨⟨0⟩, .x, .alpha⟩, 1), (⟨⟨0⟩, .x, .beta⟩, 1)]⟩) := by
    rfl
  have hwide : (acted doubled).network.StandsFor ⟨2⟩ (.length ⟨2⟩) := rfl
  have hten : (acted doubled).network.StandsFor ⟨1⟩ (.length ⟨1⟩) := rfl
  have hnests : (acted doubled).network.Nests [.length ⟨2⟩, .value 2.0, .length ⟨1⟩]
      [.multiply, .subtract] ⟨6⟩ :=
    .next (.next (.first hwide) htwo hproduct) hten hnested
  have htimely : ∀ tree : RegionTree,
      (acted doubled).network.value tree.relative ⟨1⟩ = .ok (some 10.0) →
        Operand.Timely ((acted doubled).network.value tree.relative)
          [.length ⟨2⟩, .value 2.0, .length ⟨1⟩] := by
    intro tree hvalue
    simp [Operand.Timely, Operand.evaluate, hvalue]
  have hvalue := (chains_nest doubled).value _ _ _ _ _ hchain hnests
  exact ⟨hvalue _ (htimely _ (by decide +kernel)), by decide +kernel,
    hvalue _ (htimely _ (by decide +kernel)), by decide +kernel,
    (chains_nest doubled).prerequisites _ _ _ _ _ hchain hnests
      ⟨⟨3⟩, by decide +kernel, .refl⟩ ⟨⟨6⟩, by decide +kernel, .refl⟩ _⟩

end RegionTree

end RegionLayout
