import RegionLayout.Notice

/-!
Networks of lengths. Every length announces two things, that its value may have changed and that its
prerequisites did, to the listeners on its two rosters. A listener stays on a roster after it is
gone and is struck off when the length next announces.
-/

namespace RegionLayout

inductive Listener where
  /-- A compound length hears of its operands. -/
  | operandOf (compound : LengthId)
  /-- A coordinate hears of its recipe; `wiring` tells its recipes apart. -/
  | recipeOf (coordinate : CoordinateId) (wiring : Nat)
  | watch (number : Nat)
  deriving DecidableEq, Repr

inductive Channel where
  | invalidated
  | prerequisites
  deriving DecidableEq, Repr

structure Length where
  formula : Formula
  invalidatedRoster : List Listener
  prerequisitesRoster : List Listener

namespace Length

def roster (length : Length) : Channel → List Listener
  | .invalidated => length.invalidatedRoster
  | .prerequisites => length.prerequisitesRoster

def setRoster (length : Length) (listeners : List Listener) : Channel → Length
  | .invalidated => { length with invalidatedRoster := listeners }
  | .prerequisites => { length with prerequisitesRoster := listeners }

end Length

structure Network where
  lengths : Array Length
  journal : Array Notice

namespace Network

def empty : Network := ⟨#[], #[]⟩

instance : Inhabited Network := ⟨empty⟩

def formula? (network : Network) (id : LengthId) : Option Formula :=
  (network.lengths[id.index]?).map (·.formula)

def note (network : Network) (notice : Notice) : Network :=
  { network with journal := network.journal.push notice }

def send (network : Network) (message : Message) : Network :=
  network.note (.sent message)

def edit (network : Network) (id : LengthId) (change : Length → Length) : Network :=
  { network with lengths := network.lengths.modify id.index change }

def setFormula (network : Network) (id : LengthId) (formula : Formula) : Network :=
  network.edit id fun length => { length with formula }

/-- The length on whose rosters the listeners of `id` are. -/
def channelOf (network : Network) (id : LengthId) : LengthId :=
  match network.formula? id with
  | some (.tracer tracer) => tracer.channel
  | _ => id

/-- The coordinates that a length reads, each once. -/
def prerequisites (network : Network) (id : LengthId) : List CoordinateId :=
  ((network.formula? (network.channelOf id)).map Formula.prerequisites).getD []

/-! Listeners. -/

def roster (network : Network) (channel : Channel) (id : LengthId) : List Listener :=
  ((network.lengths[(network.channelOf id).index]?).map (·.roster channel)).getD []

def subscribe (network : Network) (channel : Channel) (id : LengthId) (listener : Listener) :
    Network :=
  network.edit (network.channelOf id) fun length =>
    length.setRoster (length.roster channel ++ [listener]) channel

def subscribeBoth (network : Network) (id : LengthId) (listener : Listener) : Network :=
  (network.subscribe .invalidated id listener).subscribe .prerequisites id listener

/-! New lengths. Operands are older than the lengths they are built into. -/

def add (network : Network) (formula : Formula) : LengthId × Network :=
  (⟨network.lengths.size⟩, { network with lengths := network.lengths.push ⟨formula, [], []⟩ })

def tallyOf (network : Network) (operands : List LengthId) : PrerequisiteTally :=
  operands.foldl (fun tally operand =>
    (tally.apply (.adding (network.prerequisites operand))).2) .empty

def addCompound (network : Network) (shape : Compound) : LengthId × Network :=
  let (id, network) := network.add (.compound shape (network.tallyOf shape.lengths))
  (id, shape.lengths.foldl (fun network operand =>
    network.subscribeBoth operand (.operandOf id)) network)

def addTracer (network : Network) (name : String) (inner : LengthId) : LengthId × Network :=
  network.add (.tracer ⟨name, inner, network.channelOf inner⟩)

end Network

end RegionLayout
