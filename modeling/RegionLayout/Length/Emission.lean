import RegionLayout.Length.Network

/-!
Announcements. An announcement goes to the listeners that are still there, in the order they came;
a compound length passes on what it hears of an operand, its prerequisites as far as the change is
visible in its tally.
-/

namespace RegionLayout

/-- Who still listens. A compound length does while something outside the network leads to it. -/
structure Audience where
  /-- Marks the lengths that are in use. -/
  held : Array Bool
  /-- For each coordinate, by rank, the wiring of its current recipe. -/
  wirings : Array Nat
  watches : List Nat

def Audience.includes (audience : Audience) : Listener → Bool
  | .operandOf compound => audience.held.getD compound.index false
  | .recipeOf coordinate wiring => audience.wirings[coordinate.rank]? == some wiring
  | .watch number => audience.watches.contains number

namespace Network

def mark (marks : Array Bool) (id : LengthId) : Array Bool :=
  marks.setIfInBounds id.index true

/-- Marks the roots and all that they are built of; operands come before their compounds. -/
def heldFrom (network : Network) (roots : List LengthId) : Array Bool :=
  (List.range network.lengths.size).foldr (fun index marks =>
    if marks.getD index false then
      (((network.formula? ⟨index⟩).map Formula.operands).getD []).foldl mark marks
    else marks) (roots.foldl mark (Array.replicate network.lengths.size false))

/-! One announcement. -/

def strike (network : Network) (audience : Audience) (channel : Channel) (id : LengthId) :
    Network :=
  network.edit id fun length =>
    length.setRoster ((length.roster channel).filter audience.includes) channel

/-- Has a compound length take up an operand's change; the visible part comes back. -/
def passOn (network : Network) (compound : LengthId) (change : PrerequisiteChange) :
    PrerequisiteChange × Network :=
  match network.formula? compound with
  | some (.compound shape tally) =>
    let (visible, tally) := tally.apply change
    (visible, network.setFormula compound (.compound shape tally))
  | _ => (⟨[], []⟩, network)

/-! Passing on. The fuel bounds the depth of compounds within compounds. -/

def announceInvalidated (audience : Audience) : Nat → LengthId → Network → Network
  | 0, _, network => network
  | depth + 1, id, network =>
    let struck := (network.strike audience .invalidated id).send (.lengthInvalidated id)
    (struck.roster .invalidated id).foldl (fun network listener =>
      match listener with
      | .operandOf compound => announceInvalidated audience depth compound network
      | .recipeOf coordinate _ => network.send (.invalidated coordinate)
      | .watch number => network.note (.heard number (.lengthInvalidated id))) struck

def announcePrerequisites (audience : Audience) :
    Nat → LengthId → PrerequisiteChange → Network → Network
  | 0, _, _, network => network
  | depth + 1, id, change, network =>
    let struck := (network.strike audience .prerequisites id).send (.lengthPrerequisites id change)
    (struck.roster .prerequisites id).foldl (fun network listener =>
      match listener with
      | .operandOf compound =>
        let (visible, network) := network.passOn compound change
        if visible.isEmpty then network
        else announcePrerequisites audience depth compound visible network
      | .recipeOf coordinate _ => network.send (.prerequisites coordinate change)
      | .watch number => network.note (.heard number (.lengthPrerequisites id change))) struck

/-- Announces on behalf of `id` that its value may have changed. -/
def invalidate (network : Network) (audience : Audience) (id : LengthId) : Network :=
  announceInvalidated audience network.lengths.size (network.channelOf id) network

/-- Announces on behalf of `id` that its prerequisites changed. -/
def rewire (network : Network) (audience : Audience) (id : LengthId)
    (change : PrerequisiteChange) : Network :=
  announcePrerequisites audience network.lengths.size (network.channelOf id) change network

/-- Announces a move from `old` to `new` prerequisites, and then that the value may have changed;
nothing if both are the same set. -/
def announceMove (network : Network) (audience : Audience) (id : LengthId)
    (old new : List CoordinateId) : Network :=
  let change := PrerequisiteChange.between old new
  if change.isEmpty then network
  else (network.rewire audience id change).invalidate audience id

end Network

end RegionLayout
