/-!
Structured data from outside, before anything is known of its form.
-/

namespace RegionLayout

inductive Datum where
  | absent
  | flag (value : Bool)
  | integer (value : Int)
  | decimal (value : Float)
  | text (value : String)
  | list (items : List Datum)
  | record (fields : List (String × Datum))
  deriving Inhabited

namespace Datum

def field? (fields : List (String × Datum)) (name : String) : Option Datum :=
  (fields.find? fun field => field.1 == name).map (·.2)

/-! Readers of one form each; a number without a fraction is also read as a float. -/

def flag? : Datum → Option Bool
  | flag value => some value
  | _ => none

def float? : Datum → Option Float
  | integer value => some (Float.ofInt value)
  | decimal value => some value
  | _ => none

/-- Counts are whole, not negative, and take 64 bits. -/
def count? : Datum → Option Nat
  | integer (.ofNat value) => if value < UInt64.size then some value else none
  | _ => none

/-- A missing datum stands for its default; one that is there has to be readable. -/
def orDefault (default : β) (read : Datum → Option β) : Option Datum → Option β
  | none => some default
  | some datum => read datum

def required (read : Datum → Option β) : Option Datum → Option β
  | none => none
  | some datum => read datum

end Datum

end RegionLayout
