import RegionLayout.Proofs.Length.Greater
import RegionLayout.Proofs.Tree.Values

/-!
Values that agree with recipes. A coordinate is current if its relative value is what its recipe
comes to. It stays so while nothing that its recipe reads moves; where the recipe is bound anew
without a notice, it stays so up to the order of children.
-/

namespace RegionLayout

/-- Both absent, or present and identical or equal as numbers. -/
def Agrees (stored value : Option Float) : Prop :=
  stored = value ∨ (stored == value) = true

instance (stored value : Option Float) : Decidable (Agrees stored value) :=
  inferInstanceAs (Decidable (stored = value ∨ (stored == value) = true))

theorem Agrees.isSome_eq {stored value : Option Float} (hagrees : Agrees stored value) :
    stored.isSome = value.isSome := by
  rcases hagrees with rfl | hequal
  · rfl
  · cases stored <;> cases value <;> first | rfl | contradiction

theorem agrees_settled (old value : Option Float) :
    Agrees (RegionTree.settled old (.ok value)) value := by
  rw [RegionTree.settled]
  split
  next hequal => exact .inr hequal
  next => exact .inl rfl

theorem settled_of_agrees {old value : Option Float} (hagrees : Agrees old value) :
    RegionTree.settled old (.ok value) = old := by
  rw [RegionTree.settled]
  split
  next => rfl
  next hdiffers => exact (hagrees.resolve_right hdiffers).symm

theorem Network.value_congr {network other : Network} (hlengths : other.lengths = network.lengths)
    (read : CoordinateId → Option Float) (id : LengthId) :
    other.value read id = network.value read id := by
  have hformula : ∀ id, other.formula? id = network.formula? id := fun id => by
    rw [formula?, hlengths, formula?]
  rw [value, value, hlengths]
  generalize network.lengths.size = depth
  induction depth generalizing id with
  | zero => rfl
  | succ depth ih =>
      rw [valueAt, valueAt, hformula]
      cases network.formula? id with
      | none => rfl
      | some formula => exact Formula.evaluate_congr fun operand _ => ih operand

namespace RegionTree

/-- The relative value of a coordinate is what its recipe comes to. -/
def Current (tree : RegionTree) (id : CoordinateId) : Prop :=
  ∃ value, tree.evaluate id = .ok value ∧ Agrees (tree.relative id) value

def CurrentInSomeOrder (tree : RegionTree) (id : CoordinateId) : Prop :=
  ∃ other, Network.Reorders tree.network other ∧ { tree with network := other }.Current id

/-- What is left of being current where recipes may list children in another order. -/
structure CurrentUpToOrder (tree : RegionTree) (id : CoordinateId) : Prop where
  order : tree.CurrentInSomeOrder id
  present : ∃ value, tree.evaluate id = .ok value ∧ (tree.relative id).isSome = value.isSome
  /-- The order decides only between children that are equal and yet differ. -/
  exact : ∀ coordinate, tree.coordinate? id = some coordinate →
    (∀ lower bound, tree.network.BuiltOf coordinate.recipe lower →
      tree.network.formula? lower = some (.childrenMax bound) →
        Unmixed (bound.filterMap tree.relative)) → tree.Current id

variable {tree before after : RegionTree} {id : CoordinateId}

theorem evaluate_of_coordinate? {coordinate : Coordinate}
    (hcoordinate : tree.coordinate? id = some coordinate) :
    tree.evaluate id = tree.network.value tree.relative coordinate.recipe := by
  rw [evaluate, hcoordinate]

theorem exists_coordinate_of_evaluate {value : Option Float}
    (hvalue : tree.evaluate id = .ok value) :
    ∃ coordinate, tree.coordinate? id = some coordinate := by
  cases hcoordinate : tree.coordinate? id with
  | none => simp [evaluate, hcoordinate] at hvalue
  | some coordinate => exact ⟨coordinate, rfl⟩

theorem Current.inSomeOrder (hcurrent : tree.Current id) : tree.CurrentInSomeOrder id :=
  ⟨tree.network, .refl tree.network, hcurrent⟩

theorem currentInSomeOrder_iff {coordinate : Coordinate}
    (hcoordinate : tree.coordinate? id = some coordinate) : tree.CurrentInSomeOrder id ↔
      ∃ other, Network.Reorders tree.network other ∧
        ∃ value, other.value tree.relative coordinate.recipe = .ok value ∧
          Agrees (tree.relative id) value := by
  refine exists_congr fun other => and_congr_right fun _ => exists_congr fun value => ?_
  have hother : { tree with network := other }.coordinate? id = some coordinate := hcoordinate
  rw [evaluate_of_coordinate? hother]
  exact Iff.rfl

theorem CurrentInSomeOrder.exists_coordinate (hcurrent : tree.CurrentInSomeOrder id) :
    ∃ coordinate, tree.coordinate? id = some coordinate := by
  obtain ⟨other, _, value, hvalue, _⟩ := hcurrent
  have hfound := exists_coordinate_of_evaluate hvalue
  exact hfound

theorem CurrentInSomeOrder.upToOrder (hsound : tree.Sound)
    (hcurrent : tree.CurrentInSomeOrder id) : tree.CurrentUpToOrder id := by
  obtain ⟨held, hheld⟩ := hcurrent.exists_coordinate
  obtain ⟨other, hreorders, value, hvalue, hagrees⟩ := (currentInSomeOrder_iff hheld).mp hcurrent
  have hbuilt := hreorders.builtIn hsound.network.laid.builtIn
  have holder := hreorders.older hsound.network.laid.older
  have hlt : held.recipe.index < other.lengths.size := by
    rw [hreorders.size]
    exact hsound.recipe_lt hheld
  refine ⟨hcurrent, ?_, fun coordinate hcoordinate hunmixed => ?_⟩
  · obtain ⟨own, hown, hpresent⟩ := hreorders.symm.exists_value hbuilt holder hlt hvalue
    exact ⟨own, (evaluate_of_coordinate? hheld).trans hown, hagrees.isSome_eq.trans hpresent.symm⟩
  · rw [hheld] at hcoordinate
    obtain rfl := Option.some.inj hcoordinate
    refine ⟨value, (evaluate_of_coordinate? hheld).trans ?_, hagrees⟩
    refine hreorders.symm.value_eq hbuilt holder hlt (fun lower bound hpath hbound => ?_) hvalue
    rcases hreorders.formula lower with hsame | ⟨order, order', horder, horder', hperm⟩
    · exact hunmixed lower bound (hreorders.builtOf_iff.mp hpath) (hsame ▸ hbound)
    · rw [hbound] at horder'
      rw [Formula.childrenMax.inj (Option.some.inj horder')]
      have hmixed := hunmixed lower order (hreorders.builtOf_iff.mp hpath) horder
      intro left hleft right hright
      exact hmixed left ((hperm.filterMap tree.relative).mem_iff.mpr hleft) right
        ((hperm.filterMap tree.relative).mem_iff.mpr hright)

/-! Where nothing that is read moves. -/

theorem Sound.covers_recipe (hsound : tree.Sound) {coordinate : Coordinate}
    (hcoordinate : tree.coordinate? id = some coordinate) :
    tree.network.Covers coordinate.recipe :=
  hsound.network.ledger.covers hsound.network.laid (hsound.includes_recipe hcoordinate)

theorem Sound.mem_prerequisites_iff (hsound : tree.Sound) {coordinate : Coordinate}
    (hcoordinate : tree.coordinate? id = some coordinate) {prerequisite : CoordinateId} :
    prerequisite ∈ tree.prerequisites id ↔
      prerequisite ∈ tree.network.reads coordinate.recipe := by
  rw [prerequisites, hcoordinate, Option.map_some, Option.getD_some,
    hsound.network.laid.builtIn.prerequisites]

theorem Sound.value_eq (hsound : tree.Sound) {other : Network}
    (hreorders : Network.Reorders tree.network other) {coordinate : Coordinate}
    (hcoordinate : tree.coordinate? id = some coordinate)
    {read read' : CoordinateId → Option Float}
    (hsame : ∀ prerequisite ∈ tree.prerequisites id, read prerequisite = read' prerequisite) :
    other.value read coordinate.recipe = other.value read' coordinate.recipe := by
  have hlaid := hsound.network.laid
  refine Network.value_congr_read (hreorders.builtIn hlaid.builtIn) (hreorders.older hlaid.older)
    (hreorders.covers (hsound.covers_recipe hcoordinate)) fun prerequisite hread => ?_
  exact hsame prerequisite
    ((hsound.mem_prerequisites_iff hcoordinate).mpr (hreorders.mem_reads_iff.mp hread))

theorem Revalues.evaluate_of_coordinate? (hrevalues : Revalues before after)
    {coordinate : Coordinate} (hold : before.coordinate? id = some coordinate) :
    after.evaluate id = before.network.value after.relative coordinate.recipe := by
  obtain ⟨new, hnew, hrecipe, _⟩ := hrevalues.exists_coordinate hold
  rw [RegionTree.evaluate_of_coordinate? hnew, hrecipe, Network.value_congr hrevalues.lengths]

theorem Revalues.evaluate_of_none (hrevalues : Revalues before after)
    (hold : before.coordinate? id = none) : after.evaluate id = before.evaluate id := by
  have hwired := hrevalues.wired id
  rw [hold, Option.map_none, Option.map_eq_none_iff] at hwired
  rw [evaluate, hwired, evaluate, hold]

theorem Revalues.evaluate_congr {other : RegionTree} (hafter : Revalues before after)
    (hother : Revalues before other) (hsound : before.Sound)
    (hsame : ∀ prerequisite ∈ before.prerequisites id,
      after.relative prerequisite = other.relative prerequisite) :
    after.evaluate id = other.evaluate id := by
  cases hold : before.coordinate? id with
  | none => rw [hafter.evaluate_of_none hold, hother.evaluate_of_none hold]
  | some coordinate =>
      rw [hafter.evaluate_of_coordinate? hold, hother.evaluate_of_coordinate? hold]
      exact hsound.value_eq (.refl before.network) hold hsame

theorem Revalues.evaluate_eq (hrevalues : Revalues before after) (hsound : before.Sound)
    (hsame : ∀ prerequisite ∈ before.prerequisites id,
      after.relative prerequisite = before.relative prerequisite) :
    after.evaluate id = before.evaluate id :=
  hrevalues.evaluate_congr (.refl before) hsound hsame

section Unmoved

variable (hrevalues : Revalues before after) (hsound : before.Sound)
  (hsame : ∀ prerequisite ∈ before.prerequisites id,
    after.relative prerequisite = before.relative prerequisite)
  (hrelative : after.relative id = before.relative id)

include hrevalues hsound hsame hrelative

theorem Revalues.current_iff : after.Current id ↔ before.Current id := by
  rw [Current, hrevalues.evaluate_eq hsound hsame, hrelative, Current]

theorem Revalues.currentInSomeOrder (hcurrent : before.CurrentInSomeOrder id) :
    after.CurrentInSomeOrder id := by
  obtain ⟨old, hold⟩ := hcurrent.exists_coordinate
  obtain ⟨new, hnew, hrecipe, _⟩ := hrevalues.exists_coordinate hold
  obtain ⟨other, hreorders, value, hvalue, hagrees⟩ := (currentInSomeOrder_iff hold).mp hcurrent
  refine (currentInSomeOrder_iff hnew).mpr ⟨other, ⟨?_, fun length => ?_⟩, value, ?_, ?_⟩
  · rw [hreorders.size, hrevalues.lengths]
  · rw [hrevalues.formula? length]
    exact hreorders.formula length
  · rw [hrecipe, hsound.value_eq hreorders hold hsame, hvalue]
  · rwa [hrelative]

end Unmoved

/-! Where nothing was announced. -/

theorem Tells.currentInSomeOrder (htells : Tells before after) (hsound : before.Sound)
    (hsound' : after.Sound)
    (hquiet : ¬ Network.Announced before.network after.network .invalidated id)
    (hcurrent : before.CurrentInSomeOrder id) : after.CurrentInSomeOrder id := by
  obtain ⟨old, hold⟩ := hcurrent.exists_coordinate
  obtain ⟨new, hnew, htells'⟩ := htells.told id old hold
  obtain ⟨hrecipe, halike⟩ := htells'.value.resolve_right hquiet
  obtain ⟨other, hreorders, value, hvalue, hagrees⟩ := (currentInSomeOrder_iff hold).mp hcurrent
  have hlaid := hsound.network.laid
  have hlaid' := hsound'.network.laid
  obtain ⟨other', hreorders', hvalue'⟩ := Network.exists_reorders hlaid.builtIn hlaid'.builtIn
    hlaid.older hlaid'.older (hsound.recipe_lt hold) halike hreorders hvalue
  have hread : after.relative = before.relative := funext htells.relative
  refine (currentInSomeOrder_iff hnew).mpr ⟨other', hreorders', value, ?_, ?_⟩
  · rw [hrecipe, hread, hvalue']
  · rwa [hread]

end RegionTree

end RegionLayout
