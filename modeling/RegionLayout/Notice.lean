import RegionLayout.Length.Formula

/-!
Notices. A journal of them tells, in order, what was announced on which channel and which watch
heard it.
-/

namespace RegionLayout

/-- What is announced, and by whom. -/
inductive Message where
  | lengthInvalidated (length : LengthId)
  | lengthPrerequisites (length : LengthId) (change : PrerequisiteChange)
  | invalidated (coordinate : CoordinateId)
  | prerequisites (coordinate : CoordinateId) (change : PrerequisiteChange)
  | relative (coordinate : CoordinateId) (old new : Option Float)
  | absolute (coordinate : CoordinateId) (old new : Option Float)
  | parent (cell : CellId) (old new : Option CellId)
  | children (cell : CellId)

inductive Notice where
  | sent (message : Message)
  /-- A watch on a length was told. -/
  | heard (watch : Nat) (message : Message)
  /-- A probe or tracer of this name was evaluated. -/
  | evaluated (name : String)
  /-- A tracer of this name was bound. -/
  | bound (name : String) (owner : CoordinateId)

end RegionLayout
