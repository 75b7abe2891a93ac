import RegionLayout.Datum

/-!
Counters of one layout pass.
-/

namespace RegionLayout

structure LayoutStats where
  /-- Coordinates that the pass started from. -/
  seeded : Nat
  calculated : Nat
  /-- Calculations that left the relative value as it was. -/
  stopped : Nat
  /-- Coordinates whose edges were made to match their recipe. -/
  rewired : Nat
  deriving DecidableEq, Repr

namespace LayoutStats

def zero : LayoutStats := ⟨0, 0, 0, 0⟩

instance : Inhabited LayoutStats := ⟨zero⟩

/-- The share of calculations that stopped propagation. -/
def stopRate (stats : LayoutStats) : Float :=
  if stats.calculated = 0 then 0.0 else Float.ofNat stats.stopped / Float.ofNat stats.calculated

def fields (stats : LayoutStats) : List (String × Nat) :=
  [("seeded", stats.seeded), ("calculated", stats.calculated), ("stopped", stats.stopped),
    ("rewired", stats.rewired)]

def ofParts (seeded calculated stopped rewired : Option Datum) : Option LayoutStats := do
  let seeded ← Datum.required Datum.count? seeded
  let calculated ← Datum.required Datum.count? calculated
  let stopped ← Datum.required Datum.count? stopped
  let rewired ← Datum.required Datum.count? rewired
  return ⟨seeded, calculated, stopped, rewired⟩

/-- Reads counters by field name, or listed in the order of the fields. -/
def ofDatum? : Datum → Option LayoutStats
  | .record fields =>
    ofParts (Datum.field? fields "seeded") (Datum.field? fields "calculated")
      (Datum.field? fields "stopped") (Datum.field? fields "rewired")
  | .list items =>
    if items.length = 4 then ofParts items[0]? items[1]? items[2]? items[3]? else none
  | _ => none

end LayoutStats

end RegionLayout
