/-!
Shortest decimals. A float stands for an interval of reals, those that round to it; `shortest` takes
the fewest digits that lie in the interval, and of two such decimals the nearer one.
-/

namespace RegionLayout

/-- The number `digits * 10 ^ exponent`. -/
structure Decimal where
  digits : Nat
  exponent : Int
  deriving DecidableEq, Repr

namespace Decimal

/-- A positive number and the interval around it that rounds to it, all over one denominator. -/
structure Interval where
  low : Nat
  value : Nat
  high : Nat
  denominator : Nat
  /-- Whether the two ends belong to the interval. -/
  closed : Bool
  deriving DecidableEq, Repr

namespace Interval

/-- The interval of `significand * 2 ^ exponent`. It reaches half a unit up and down, or a quarter
down where the floats below lie twice as close. -/
def of (significand : Nat) (exponent : Int) (closeBelow : Bool) : Interval :=
  let unit := Nat.pow 2 (exponent - 2).toNat
  { low := (4 * significand - if closeBelow then 1 else 2) * unit
    value := 4 * significand * unit
    high := (4 * significand + 2) * unit
    denominator := Nat.pow 2 (2 - exponent).toNat
    closed := significand % 2 = 0 }

def scaled (interval : Interval) (exponent : Int) : Interval :=
  let up := Nat.pow 10 (-exponent).toNat
  { interval with
    low := interval.low * up
    value := interval.value * up
    high := interval.high * up
    denominator := interval.denominator * Nat.pow 10 exponent.toNat }

/-- Whether a whole number lies in the interval. -/
def holds (interval : Interval) (whole : Nat) : Bool :=
  let point := whole * interval.denominator
  if interval.closed then interval.low ≤ point && point ≤ interval.high
  else interval.low < point && point < interval.high

/-- Of the whole numbers next to the value, the nearer one in the interval; the upper of two equally
near. -/
def nearest? (interval : Interval) : Option Nat :=
  let below := interval.value / interval.denominator
  let rest := interval.value % interval.denominator
  let nearer := if 2 * rest < interval.denominator then below else below + 1
  let farther := if 2 * rest < interval.denominator then below + 1 else below
  if interval.holds nearer then some nearer
  else if interval.holds farther then some farther
  else none

/-- The least power of ten above the value, of those from `exponent` on. -/
def magnitude (interval : Interval) : Nat → Int → Int
  | 0, exponent => exponent
  | steps + 1, exponent =>
    if interval.value * Nat.pow 10 (-exponent).toNat <
        interval.denominator * Nat.pow 10 exponent.toNat then exponent
    else magnitude interval steps (exponent + 1)

def search (interval : Interval) (magnitude : Int) : Nat → Nat → Decimal
  | 0, _ => ⟨0, 0⟩
  | steps + 1, count =>
    let exponent := magnitude - count
    match (interval.scaled exponent).nearest? with
    | some digits => ⟨digits, exponent⟩
    | none => search interval magnitude steps (count + 1)

end Interval

/-- Drops zeros at the end of the digits. -/
def trimmed : Nat → Decimal → Decimal
  | 0, decimal => decimal
  | steps + 1, decimal =>
    if decimal.digits % 10 = 0 then trimmed steps ⟨decimal.digits / 10, decimal.exponent + 1⟩
    else decimal

/-- The shortest decimal that reads back as `significand * 2 ^ exponent`. -/
def shortest (significand : Nat) (exponent : Int) (closeBelow : Bool) : Decimal :=
  let interval := Interval.of significand exponent closeBelow
  trimmed 17 (interval.search (interval.magnitude 640 (-325)) 17 1)

end Decimal

end RegionLayout
