import RegionLayout.Length.Emission

/-!
Binding. A length that depends on its owner's place looks up its coordinates there, and announces
the difference; a sibling is looked up only once, when its owner first has a parent.
-/

namespace RegionLayout

/-- A cell's place in its tree, as far as lengths care. -/
structure Surroundings where
  /-- Parent, grandparent and so on. -/
  ancestors : List CellId
  children : List CellId
  /-- The child before the cell among its parent's children. -/
  previous : Option CellId

namespace AncestorSpan

def target (span : AncestorSpan) (owner : CoordinateId) (around : Surroundings) :
    List CoordinateId :=
  match around.ancestors[span.generations - 1]? with
  | some ancestor => [ancestor.coordinate owner.axis .alpha, ancestor.coordinate owner.axis .beta]
  | none => []

end AncestorSpan

namespace Sibling

def lookUp (sibling : Sibling) (owner : CoordinateId) (around : Surroundings) : Peer :=
  match around.previous with
  | some previous => .found (previous.coordinate owner.axis sibling.edge)
  | none => .missing

end Sibling

namespace Network

/-- Binds one length; what it is built of is bound by `inner`. -/
def bindWith (inner : LengthId → Network → Network) (audience : Audience) (owner : CoordinateId)
    (around : Surroundings) (id : LengthId) (network : Network) : Network :=
  match network.formula? id with
  | some (.ancestorSpan span) =>
    let bound := span.target owner around
    (network.setFormula id (.ancestorSpan { span with bound })).announceMove audience id span.bound
      bound
  | some (.childrenMax old) =>
    let bound := around.children.map fun child => child.coordinate owner.axis .beta
    (network.setFormula id (.childrenMax bound)).announceMove audience id old bound
  | some (.sibling sibling) =>
    let owned := { sibling with owner := some owner }
    if around.ancestors.isEmpty || sibling.peer.isResolved then
      network.setFormula id (.sibling owned)
    else
      let peer := sibling.lookUp owner around
      (network.setFormula id (.sibling { owned with peer })).announceMove audience id []
        peer.coordinate?.toList
  | some (.compound shape _) => shape.lengths.foldl (fun network operand =>
      inner operand network) network
  | some (.tracer tracer) => inner tracer.inner (network.note (.bound tracer.name owner))
  | _ => network

def bindAt (audience : Audience) (owner : CoordinateId) (around : Surroundings) :
    Nat → LengthId → Network → Network
  | 0, _, network => network
  | depth + 1, id, network =>
    bindWith (bindAt audience owner around depth) audience owner around id network

/-- Binds a length, and all that it is built of, for its owner. -/
def bind (network : Network) (audience : Audience) (owner : CoordinateId)
    (around : Surroundings) (id : LengthId) : Network :=
  bindAt audience owner around network.lengths.size id network

end Network

end RegionLayout
