import RegionLayout.Length.Network

/-!
Evaluation. A length is evaluated against the relative values of coordinates; `none` says that an
input has no value yet. Evaluation reads nothing but the length's prerequisites.
-/

namespace RegionLayout

abbrev Evaluated := Except LayoutError (Option Float)

/-- The greater of two values, or the second where they are equal, as two zeros of different sign
are; what is not a number gives way. -/
def greater (left right : Float) : Float :=
  if right.isNaN then left
  else if right < left then left
  else right

namespace AncestorSpan

def value (span : AncestorSpan) (read : CoordinateId → Option Float) : Option Float :=
  match span.bound with
  | [alpha, beta] =>
    match read alpha, read beta with
    | some near, some far => some ((far - near) * span.factor)
    | _, _ => none
  | _ => none

end AncestorSpan

namespace Sibling

def value (sibling : Sibling) (read : CoordinateId → Option Float) : Evaluated :=
  match sibling.peer with
  | .found peer => .ok ((read peer).map (· + sibling.offset))
  | _ => if sibling.strict then .error (.noPreviousPeer sibling.owner) else .ok none

end Sibling

namespace Probe

def sum (read : CoordinateId → Option Float) : List CoordinateId → Float → Option Float
  | [], total => some total
  | coordinate :: rest, total => (read coordinate).bind fun value => sum read rest (total + value)

def value (probe : Probe) (read : CoordinateId → Option Float) : Evaluated :=
  match probe.failure with
  | some failure => .error failure
  | none => .ok (probe.base.bind (sum read probe.reads))

end Probe

def Operand.evaluate (value : LengthId → Evaluated) : Operand → Evaluated
  | .length id => value id
  | .value number => .ok (some number)

namespace Compound

/-- Joins the rest of a chain to what its start came to; an absent operand ends it. -/
def join (value : LengthId → Evaluated) : List (Operator × Operand) → Float → Evaluated
  | [], total => .ok (some total)
  | (operator, operand) :: rest, total =>
    match operand.evaluate value with
    | .ok (some next) => join value rest (operator.apply total next)
    | other => other

def evaluate (value : LengthId → Evaluated) : Compound → Evaluated
  | fallback preferred alternative =>
    match value preferred with
    | .ok none => value alternative
    | other => other
  | binary operator lhs rhs =>
    match value lhs, value rhs with
    | .error failure, _ => .error failure
    | _, .error failure => .error failure
    | .ok (some left), .ok (some right) => .ok (some (operator.apply left right))
    | _, _ => .ok none
  | chain operands operators =>
    match operands with
    | first :: rest =>
      if operators.length = rest.length then
        match first.evaluate value with
        | .ok (some start) => join value (operators.zip rest) start
        | other => other
      else .error (.arithmeticMismatch operands.length operators.length)
    | [] => .error (.arithmeticMismatch 0 operators.length)

end Compound

namespace Formula

def evaluate (read : CoordinateId → Option Float) (value : LengthId → Evaluated) :
    Formula → Evaluated
  | constant value => .ok (some value)
  | ancestorSpan own => .ok (own.value read)
  | childrenMax bound =>
    match bound.filterMap read with
    | [] => .ok none
    | first :: rest => .ok (some (rest.foldl greater first))
  | sibling own => own.value read
  | compound shape _ => shape.evaluate value
  | probe own => own.value read
  | tracer own => value own.inner

end Formula

/-! The names of the probes and tracers that are met on the way. -/

namespace Compound

def joinNames (value : LengthId → Evaluated) (names : LengthId → List String) :
    List (Operator × Operand) → List String
  | [] => []
  | (_, operand) :: rest =>
    let met := (operand.length?.map names).getD []
    match operand.evaluate value with
    | .ok (some _) => met ++ joinNames value names rest
    | _ => met

def names (value : LengthId → Evaluated) (names : LengthId → List String) :
    Compound → List String
  | fallback preferred alternative =>
    match value preferred with
    | .ok none => names preferred ++ names alternative
    | _ => names preferred
  | binary _ lhs rhs =>
    match value lhs with
    | .ok _ => names lhs ++ names rhs
    | .error _ => names lhs
  | chain operands operators =>
    match operands with
    | first :: rest =>
      if operators.length = rest.length then
        let met := (first.length?.map names).getD []
        match first.evaluate value with
        | .ok (some _) => met ++ joinNames value names (operators.zip rest)
        | _ => met
      else []
    | [] => []

end Compound

def Formula.names (value : LengthId → Evaluated) (names : LengthId → List String) :
    Formula → List String
  | compound shape _ => shape.names value names
  | probe own => [own.name]
  | tracer own => own.name :: names own.inner
  | _ => []

namespace Network

/-! The fuel bounds the depth of compounds within compounds. -/

def valueAt (network : Network) (read : CoordinateId → Option Float) : Nat → LengthId → Evaluated
  | 0, _ => .ok none
  | depth + 1, id =>
    match network.formula? id with
    | some formula => formula.evaluate read (valueAt network read depth)
    | none => .ok none

def namesAt (network : Network) (read : CoordinateId → Option Float) :
    Nat → LengthId → List String
  | 0, _ => []
  | depth + 1, id =>
    match network.formula? id with
    | some formula =>
      formula.names (valueAt network read depth) (namesAt network read depth)
    | none => []

def value (network : Network) (read : CoordinateId → Option Float) (id : LengthId) : Evaluated :=
  network.valueAt read network.lengths.size id

/-- The probes and tracers that evaluating a length calls, in order. -/
def namesMet (network : Network) (read : CoordinateId → Option Float) (id : LengthId) :
    List String :=
  network.namesAt read network.lengths.size id

end Network

end RegionLayout
