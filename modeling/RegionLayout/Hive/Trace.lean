import RegionLayout.Error
import RegionLayout.Entity

/-!
The trace of a hive: what it did, for whoever follows it.
-/

namespace RegionLayout

inductive TraceEvent where
  | passStarted
  | recorded (counter : String) (count : Nat)
  | regionCreated (cell parent : CellId) (entity : EntityId)
  | rewired (coordinate : CoordinateId) (prerequisites revoked : Nat)
  | rejected (cause : CycleError CoordinateId)
  | calculated (coordinate : CoordinateId)
  | aborted (failure : LayoutError)
  deriving DecidableEq

inductive TraceField where
  | count (value : Nat)
  | text (value : String)
  deriving DecidableEq, Repr

/-- How an event is shown. -/
inductive TraceEntry where
  | span (name : String)
  | record (counter : String) (count : Nat)
  | event (level message : String) (fields : List (String × TraceField))
  deriving DecidableEq, Repr

def TraceEvent.entry : TraceEvent → TraceEntry
  | passStarted => .span "hive.layout"
  | recorded counter count => .record counter count
  | regionCreated cell parent entity =>
    .event "DEBUG" "region created" [("cell", .text cell.text), ("parent", .text parent.text),
      ("entity", .text entity.text)]
  | rewired coordinate prerequisites revoked =>
    .event "DEBUG" "rewired" [("coordinate", .text coordinate.text),
      ("prerequisites", .count prerequisites), ("revoked", .count revoked)]
  | rejected cause =>
    .event "WARN" "rejected cyclic prerequisite" [
      ("prerequisite", .text cause.prerequisite.text), ("dependent", .text cause.dependent.text)]
  | calculated coordinate =>
    .event "TRACE" "calculated" [("coordinate", .text coordinate.text)]
  | aborted failure =>
    .event "WARN" "layout pass aborted" [("error", .text failure.message)]

end RegionLayout
