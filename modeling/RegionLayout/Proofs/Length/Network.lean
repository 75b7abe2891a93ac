import Mathlib.Logic.Relation
import RegionLayout.Length.Emission
import RegionLayout.Proofs.Graph.Reachability

/-!
Networks of built-in lengths. Operands are older than what is built of them, so one sweep from the
newest length to the oldest marks everything in use; and a compound that is in use is on the rosters
of its operands as often as it lists them.
-/

namespace RegionLayout

open Relation

/-- Whether a formula is of a kind that layouts are made of, and not for looking in from outside. -/
def Formula.isBuiltIn : Formula → Bool
  | .probe _ => false
  | .tracer _ => false
  | _ => true

theorem LengthId.ext_iff' {first second : LengthId} :
    first = second ↔ first.index = second.index := by
  constructor
  · exact congrArg LengthId.index
  · cases first
    cases second
    exact congrArg LengthId.mk

namespace Network

/-! What a network says of one length. -/

def operandsAt (network : Network) (id : LengthId) : List LengthId :=
  ((network.formula? id).map Formula.operands).getD []

def listeners (network : Network) (channel : Channel) (id : LengthId) : List Listener :=
  ((network.lengths[id.index]?).map (·.roster channel)).getD []

def reads (network : Network) (id : LengthId) : List CoordinateId :=
  ((network.formula? id).map Formula.prerequisites).getD []

def BuiltIn (network : Network) : Prop :=
  ∀ id formula, network.formula? id = some formula → formula.isBuiltIn = true

theorem formula?_eq_some_lt {network : Network} {id : LengthId} {formula : Formula}
    (hformula : network.formula? id = some formula) : id.index < network.lengths.size := by
  by_contra hge
  simp [formula?, Array.getElem?_eq_none (Nat.le_of_not_lt hge)] at hformula

theorem exists_formula?_of_lt {network : Network} {id : LengthId}
    (hlt : id.index < network.lengths.size) : ∃ formula, network.formula? id = some formula :=
  ⟨network.lengths[id.index].formula, by simp [formula?, hlt]⟩

theorem lt_of_mem_operandsAt {network : Network} {upper lower : LengthId}
    (hmem : lower ∈ network.operandsAt upper) : upper.index < network.lengths.size := by
  cases hformula : network.formula? upper with
  | none => simp [operandsAt, hformula] at hmem
  | some formula => exact formula?_eq_some_lt hformula

theorem BuiltIn.channelOf {network : Network} (hbuilt : network.BuiltIn) (id : LengthId) :
    network.channelOf id = id := by
  unfold Network.channelOf
  split
  next hformula => exact absurd (hbuilt id _ hformula) Bool.false_ne_true
  next => rfl

theorem BuiltIn.roster {network : Network} (hbuilt : network.BuiltIn) (channel : Channel)
    (id : LengthId) : network.roster channel id = network.listeners channel id := by
  rw [Network.roster, hbuilt.channelOf]
  rfl

theorem BuiltIn.prerequisites {network : Network} (hbuilt : network.BuiltIn) (id : LengthId) :
    network.prerequisites id = network.reads id := by
  rw [Network.prerequisites, hbuilt.channelOf]
  rfl

/-! Changes of a network. -/

section Changes

variable (network : Network) (id other : LengthId) (channel along : Channel)

theorem getElem?_edit (change : Length → Length) :
    (network.edit id change).lengths[other.index]? =
      if other = id then (network.lengths[other.index]?).map change
      else network.lengths[other.index]? := by
  simp only [edit, Array.getElem?_modify, LengthId.ext_iff', eq_comm (a := id.index)]

theorem formula?_edit {change : Length → Length}
    (hformula : ∀ length, (change length).formula = length.formula) :
    (network.edit id change).formula? other = network.formula? other := by
  simp only [formula?, getElem?_edit]
  split
  · cases network.lengths[other.index]? <;> simp [hformula]
  · rfl

theorem formula?_setFormula (formula : Formula) :
    (network.setFormula id formula).formula? other =
      if other = id then (network.formula? other).map fun _ => formula
      else network.formula? other := by
  simp only [formula?, setFormula, getElem?_edit]
  split
  · cases network.lengths[other.index]? <;> rfl
  · rfl

theorem listeners_setFormula (formula : Formula) :
    (network.setFormula id formula).listeners channel other = network.listeners channel other := by
  simp only [listeners, setFormula, getElem?_edit]
  split
  · cases network.lengths[other.index]? with
    | none => rfl
    | some length => cases channel <;> rfl
  · rfl

@[simp] theorem size_edit (change : Length → Length) :
    (network.edit id change).lengths.size = network.lengths.size := by
  simp [edit]

@[simp] theorem size_setFormula (formula : Formula) :
    (network.setFormula id formula).lengths.size = network.lengths.size :=
  size_edit network id _

theorem formula_setRoster (length : Length) (listeners : List Listener) :
    (length.setRoster listeners channel).formula = length.formula := by
  cases channel <;> rfl

theorem roster_setRoster (length : Length) (listeners : List Listener) :
    (length.setRoster listeners channel).roster along =
      if along = channel then listeners else length.roster along := by
  cases channel <;> cases along <;> rfl

theorem formula?_strike (audience : Audience) :
    (network.strike audience channel id).formula? other = network.formula? other :=
  formula?_edit network id other fun _ => formula_setRoster channel _ _

theorem listeners_strike (audience : Audience) :
    (network.strike audience channel id).listeners along other =
      if other = id ∧ along = channel then (network.listeners along other).filter audience.includes
      else network.listeners along other := by
  simp only [listeners, strike, getElem?_edit]
  by_cases hsame : other = id
  · cases network.lengths[other.index]? with
    | none => simp
    | some length =>
        by_cases halong : along = channel <;> simp [hsame, halong, roster_setRoster]
  · simp [hsame]

theorem size_strike (audience : Audience) :
    (network.strike audience channel id).lengths.size = network.lengths.size :=
  size_edit network id _

theorem listeners_note (notice : Notice) :
    (network.note notice).listeners channel other = network.listeners channel other := rfl

theorem listeners_subscribe (hbuilt : network.BuiltIn) (listener : Listener)
    (hlt : id.index < network.lengths.size) :
    (network.subscribe channel id listener).listeners along other =
      if other = id ∧ along = channel then network.listeners along other ++ [listener]
      else network.listeners along other := by
  simp only [listeners, subscribe, hbuilt.channelOf, getElem?_edit]
  by_cases hsame : other = id
  · subst hsame
    by_cases halong : along = channel <;> simp [hlt, halong, roster_setRoster]
  · simp [hsame]

theorem formula?_subscribe (listener : Listener) :
    (network.subscribe channel id listener).formula? other = network.formula? other :=
  formula?_edit network _ other fun _ => formula_setRoster channel _ _

theorem size_subscribe (listener : Listener) :
    (network.subscribe channel id listener).lengths.size = network.lengths.size :=
  size_edit network _ _

theorem formula?_add (formula : Formula) : (network.add formula).2.formula? other =
    if other = (network.add formula).1 then some formula else network.formula? other := by
  simp only [formula?, add, Array.getElem?_push, LengthId.ext_iff']
  split <;> rfl

theorem listeners_add (formula : Formula) :
    (network.add formula).2.listeners channel other =
      if other = (network.add formula).1 then [] else network.listeners channel other := by
  simp only [listeners, add, Array.getElem?_push, LengthId.ext_iff']
  split
  · cases channel <;> rfl
  · rfl

end Changes

/-! What lengths are built of. -/

/-- `upper` is `lower` or is built of it, directly or through others. -/
def BuiltOf (network : Network) : LengthId → LengthId → Prop :=
  ReflTransGen fun upper lower => lower ∈ network.operandsAt upper

def Older (network : Network) : Prop :=
  ∀ upper lower, lower ∈ network.operandsAt upper → lower.index < upper.index

theorem size_foldl_mark (ids : List LengthId) (marks : Array Bool) :
    (ids.foldl mark marks).size = marks.size :=
  Graph.size_foldl_setIfInBounds LengthId.index ids marks

theorem marked_foldl_mark {ids : List LengthId} {marks : Array Bool} {id : LengthId}
    (hlt : id.index < marks.size) :
    Graph.Marked (ids.foldl mark marks) id.index ↔ Graph.Marked marks id.index ∨ id ∈ ids := by
  refine (Graph.marked_foldl_iff LengthId.index).trans (or_congr_right ?_)
  simp [hlt, ← LengthId.ext_iff']

section Held

variable {network : Network}

def markOperands (network : Network) (index : Nat) (marks : Array Bool) : Array Bool :=
  if marks.getD index false then (network.operandsAt ⟨index⟩).foldl mark marks else marks

theorem marked_markOperands {index : Nat} {marks : Array Bool} {id : LengthId}
    (hlt : id.index < marks.size) :
    Graph.Marked (network.markOperands index marks) id.index ↔
      Graph.Marked marks id.index ∨
        Graph.Marked marks index ∧ id ∈ network.operandsAt ⟨index⟩ := by
  unfold markOperands
  split
  next hmarked => simp [marked_foldl_mark hlt, show Graph.Marked marks index from hmarked]
  next hmarked => simp [show ¬ Graph.Marked marks index from hmarked]

theorem size_markOperands (index : Nat) (marks : Array Bool) :
    (network.markOperands index marks).size = marks.size := by
  unfold markOperands
  split
  · exact size_foldl_mark _ _
  · rfl

theorem size_foldr_markOperands (indices : List Nat) (marks : Array Bool) :
    (indices.foldr network.markOperands marks).size = marks.size := by
  induction indices with
  | nil => rfl
  | cons first rest ih => rw [List.foldr_cons, size_markOperands, ih]

/-- From `count` down, what a marked length is built of is marked. -/
theorem marked_foldr_markOperands (holder : network.Older) (count : Nat) {marks : Array Bool}
    {id : LengthId} (hlt : id.index < marks.size) :
    Graph.Marked ((List.range count).foldr network.markOperands marks) id.index ↔
      Graph.Marked marks id.index ∨ ∃ upper : LengthId, upper.index < count ∧
        Graph.Marked marks upper.index ∧
          TransGen (fun upper lower => lower ∈ network.operandsAt upper) upper id := by
  -- Operands are older than what they make up, so a sweep downwards marks a length before its turn.
  induction count generalizing marks with
  | zero => simp
  | succ count ih =>
      rw [List.range_succ, List.foldr_append, List.foldr_cons, List.foldr_nil,
        ih (by rwa [size_markOperands]), marked_markOperands hlt]
      constructor
      · rintro ((hold | ⟨hmarked, hoperand⟩) | ⟨upper, hupper, hmarked, hpath⟩)
        · exact .inl hold
        · exact .inr ⟨⟨count⟩, Nat.lt_succ_self count, hmarked, .single hoperand⟩
        · have hbound := size_markOperands count marks ▸ hmarked.lt
          rcases (marked_markOperands hbound).mp hmarked with hold | ⟨hcount, hoperand⟩
          · exact .inr ⟨upper, Nat.lt_succ_of_lt hupper, hold, hpath⟩
          · exact .inr ⟨⟨count⟩, Nat.lt_succ_self count, hcount, .head hoperand hpath⟩
      · rintro (hold | ⟨upper, hupper, hmarked, hpath⟩)
        · exact .inl (.inl hold)
        · rcases Nat.lt_succ_iff_lt_or_eq.mp hupper with hless | rfl
          · exact .inr ⟨upper, hless, (marked_markOperands hmarked.lt).mpr (.inl hmarked), hpath⟩
          · rcases TransGen.head'_iff.mp hpath with ⟨middle, hoperand, hrest⟩
            rcases reflTransGen_iff_eq_or_transGen.mp hrest with rfl | hlower
            · exact .inl (.inr ⟨hmarked, hoperand⟩)
            · have hless := holder upper middle hoperand
              refine .inr ⟨middle, hless, ?_, hlower⟩
              exact (marked_markOperands (hless.trans hmarked.lt)).mpr (.inr ⟨hmarked, hoperand⟩)

theorem size_heldFrom (network : Network) (roots : List LengthId) :
    (network.heldFrom roots).size = network.lengths.size := by
  have hsweep : network.heldFrom roots = (List.range network.lengths.size).foldr
      network.markOperands (roots.foldl mark (Array.replicate network.lengths.size false)) := rfl
  rw [hsweep, size_foldr_markOperands, size_foldl_mark, Array.size_replicate]

/-- The sweep marks the roots and all that they are built of. -/
theorem marked_heldFrom (holder : network.Older) {roots : List LengthId}
    (hroots : ∀ root ∈ roots, root.index < network.lengths.size) {id : LengthId} :
    Graph.Marked (network.heldFrom roots) id.index ↔
      ∃ root ∈ roots, network.BuiltOf root id := by
  have hsweep : network.heldFrom roots = (List.range network.lengths.size).foldr
      network.markOperands (roots.foldl mark (Array.replicate network.lengths.size false)) := rfl
  have hsize : (roots.foldl mark (Array.replicate network.lengths.size false)).size =
      network.lengths.size := by rw [size_foldl_mark, Array.size_replicate]
  have hstart : ∀ {other : LengthId}, other.index < network.lengths.size →
      (Graph.Marked (roots.foldl mark (Array.replicate network.lengths.size false)) other.index ↔
        other ∈ roots) := by
    intro other hother
    rw [marked_foldl_mark (by simpa using hother)]
    exact or_iff_right Graph.not_marked_replicate
  constructor
  · intro hmarked
    have hlt := size_heldFrom network roots ▸ hmarked.lt
    rw [hsweep, marked_foldr_markOperands holder _ (hsize.symm ▸ hlt)] at hmarked
    rcases hmarked with hroot | ⟨upper, hupper, hroot, hpath⟩
    · exact ⟨id, (hstart hlt).mp hroot, .refl⟩
    · exact ⟨upper, (hstart hupper).mp hroot, hpath.to_reflTransGen⟩
  · rintro ⟨root, hroot, hpath⟩
    have hbound := hroots root hroot
    have hlt : id.index < network.lengths.size := by
      clear hroot
      induction hpath with
      | refl => exact hbound
      | tail _ hoperand ih => exact (holder _ _ hoperand).trans ih
    rw [hsweep, marked_foldr_markOperands holder _ (hsize.symm ▸ hlt)]
    rcases reflTransGen_iff_eq_or_transGen.mp hpath with rfl | hpath
    · exact .inl ((hstart hlt).mpr hroot)
    · exact .inr ⟨root, hbound, (hstart hbound).mpr hroot, hpath⟩

end Held

/-! Rosters. -/

/-- The listeners on the rosters of a network fit what its lengths are built of. -/
structure Laid (network : Network) (audience : Audience) : Prop where
  builtIn : network.BuiltIn
  older : network.Older
  /-- What is in use is built of what is in use. -/
  closed : ∀ upper lower, audience.includes (.operandOf upper) = true →
    lower ∈ network.operandsAt upper → audience.includes (.operandOf lower) = true
  bounded : ∀ compound, audience.includes (.operandOf compound) = true →
    compound.index < network.lengths.size
  listed : ∀ channel id compound, .operandOf compound ∈ network.listeners channel id →
    compound.index < network.lengths.size
  enrolled : ∀ channel id compound, audience.includes (.operandOf compound) = true →
    (network.listeners channel id).count (.operandOf compound) =
      (network.operandsAt compound).count id

theorem Laid.closed_builtOf {network : Network} {audience : Audience}
    (hlaid : network.Laid audience) {upper lower : LengthId}
    (hheld : audience.includes (.operandOf upper) = true) (hpath : network.BuiltOf upper lower) :
    audience.includes (.operandOf lower) = true := by
  induction hpath with
  | refl => exact hheld
  | tail _ hoperand ih => exact hlaid.closed _ _ ih hoperand

theorem Laid.mem_operandsAt {network : Network} {audience : Audience}
    (hlaid : network.Laid audience) {channel : Channel} {id compound : LengthId}
    (hheld : audience.includes (.operandOf compound) = true) :
    .operandOf compound ∈ network.listeners channel id ↔ id ∈ network.operandsAt compound := by
  rw [← List.count_pos_iff, hlaid.enrolled channel id compound hheld, List.count_pos_iff]

end Network

end RegionLayout
