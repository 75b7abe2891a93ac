import RegionLayout.CoordinateSet
import RegionLayout.Notice

/-!
Work that waits for the next layout pass.
-/

namespace RegionLayout

structure Backlog where
  /-- Coordinates that no pass has seen. -/
  fresh : CoordinateSet
  invalidated : CoordinateSet
  /-- Coordinates whose prerequisites changed. -/
  rewired : CoordinateSet
  deriving DecidableEq

namespace Backlog

def empty : Backlog := ⟨.empty, .empty, .empty⟩

instance : Inhabited Backlog := ⟨empty⟩

def isEmpty (pending : Backlog) : Bool :=
  pending.fresh.isEmpty && pending.invalidated.isEmpty && pending.rewired.isEmpty

def merge (pending other : Backlog) : Backlog where
  fresh := pending.fresh.union other.fresh
  invalidated := pending.invalidated.union other.invalidated
  rewired := pending.rewired.union other.rewired

/-- Takes up what a registered coordinate announced. -/
def hear (registered : CoordinateId → Bool) (pending : Backlog) : Notice → Backlog
  | .sent (.invalidated coordinate) =>
    if registered coordinate then
      { pending with invalidated := pending.invalidated.insert coordinate }
    else pending
  | .sent (.prerequisites coordinate _) =>
    if registered coordinate then
      { pending with rewired := pending.rewired.insert coordinate }
    else pending
  | _ => pending

end Backlog

end RegionLayout
