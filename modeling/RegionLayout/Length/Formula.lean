import RegionLayout.Error
import RegionLayout.Prerequisite.Tally

/-!
Formulas of lengths. A length has a number; compound formulas name their operands by number, so
lengths can be shared and edited after they were built in.
-/

namespace RegionLayout

structure LengthId where
  index : Nat
  deriving DecidableEq, Repr

inductive Operator where
  | add
  | subtract
  | multiply
  | divide
  deriving DecidableEq, Repr

def Operator.apply : Operator → Float → Float → Float
  | add, lhs, rhs => lhs + rhs
  | subtract, lhs, rhs => lhs - rhs
  | multiply, lhs, rhs => lhs * rhs
  | divide, lhs, rhs => lhs / rhs

/-! Compound formulas. -/

inductive Operand where
  | length (id : LengthId)
  | value (value : Float)

def Operand.length? : Operand → Option LengthId
  | length id => some id
  | value _ => none

inductive Compound where
  /-- The first length that has a value. -/
  | fallback (preferred alternative : LengthId)
  | binary (operator : Operator) (lhs rhs : LengthId)
  /-- Operands joined from left to right, without precedence. -/
  | chain (operands : List Operand) (operators : List Operator)

namespace Compound

/-- The lengths among the operands, once for each mention. -/
def lengths : Compound → List LengthId
  | fallback preferred alternative => [preferred, alternative]
  | binary _ lhs rhs => [lhs, rhs]
  | chain operands _ => operands.filterMap Operand.length?

def chainOf (first : Operand) (rest : List (Operator × Operand)) : Compound :=
  chain (first :: rest.map (·.2)) (rest.map (·.1))

end Compound

/-! Formulas that depend on where their owner sits. -/

/-- A fraction of an ancestor's extent on the owner's axis. -/
structure AncestorSpan where
  /-- Generations above the owner; the parent is 1. -/
  generations : Nat
  factor : Float
  /-- The ancestor's near and far coordinate, or nothing without such an ancestor. -/
  bound : List CoordinateId

namespace AncestorSpan

/-- Fewer generations than one count as one. -/
def of (generations : Nat) (factor : Float) : AncestorSpan :=
  ⟨max generations 1, factor, []⟩

def parent : AncestorSpan := of 1 1.0

def percent (percent : Float) : AncestorSpan := of 1 (percent / 100.0)

end AncestorSpan

inductive Peer where
  /-- The owner had no parent yet. -/
  | unresolved
  /-- The owner was its parent's first child. -/
  | missing
  | found (coordinate : CoordinateId)
  deriving DecidableEq, Repr

namespace Peer

def isResolved : Peer → Bool
  | unresolved => false
  | _ => true

def coordinate? : Peer → Option CoordinateId
  | found coordinate => some coordinate
  | _ => none

end Peer

/-- An edge of the sibling before the owner, and an offset to it. -/
structure Sibling where
  edge : Edge
  offset : Float
  /-- Whether a missing sibling is an error. -/
  strict : Bool
  owner : Option CoordinateId
  peer : Peer

def Sibling.of (edge : Edge) (strict : Bool) (offset : Float) : Sibling :=
  ⟨edge, offset, strict, none, .unresolved⟩

/-! Formulas for looking in from outside. -/

/-- A length whose parts are set from outside: a base, and relative values to add to it. -/
structure Probe where
  name : String
  base : Option Float
  reads : List CoordinateId
  /-- What evaluation fails with, if it is to fail. -/
  failure : Option LayoutError

/-- Passes everything on to another length and leaves a trace of it. -/
structure Tracer where
  name : String
  inner : LengthId
  /-- The length whose notices are shared: the innermost one. -/
  channel : LengthId

inductive Formula where
  | constant (value : Float)
  | ancestorSpan (span : AncestorSpan)
  /-- The farthest far edge of the owner's children, whose coordinates are bound. -/
  | childrenMax (bound : List CoordinateId)
  | sibling (sibling : Sibling)
  | compound (shape : Compound) (tally : PrerequisiteTally)
  | probe (probe : Probe)
  | tracer (tracer : Tracer)

namespace Formula

def operands : Formula → List LengthId
  | compound shape _ => shape.lengths
  | tracer own => [own.inner]
  | _ => []

/-- What a length reads by itself; a tracer reads what its channel reads. -/
def prerequisites : Formula → List CoordinateId
  | constant _ => []
  | ancestorSpan own => own.bound
  | childrenMax bound => bound
  | sibling own => own.peer.coordinate?.toList
  | compound _ tally => tally.members
  | probe own => own.reads
  | tracer _ => []

end Formula

end RegionLayout
