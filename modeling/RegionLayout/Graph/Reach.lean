import RegionLayout.Graph.Basic

/-!
Reachability. `flood` marks every slot that the seeds lead to; a declared edge is refused exactly
when the prerequisite already depends on the dependent, and then nothing changes.
-/

namespace RegionLayout

/-- A declared edge that would have closed a loop. -/
structure CycleError (α : Type) where
  prerequisite : α
  dependent : α
  deriving DecidableEq

namespace CycleError

def message (describe : α → String) (cycle : CycleError α) : String :=
  "prerequisite cycle: " ++ describe cycle.prerequisite ++ " cannot feed " ++
    describe cycle.dependent ++ ", which it already depends on"

end CycleError

namespace Graph

/-! Marking. A slot is expanded when it is first met; each step marks one slot more. -/

def flood (next : Nat → List Nat) : Nat → List Nat → Array Bool → Array Bool
  | 0, _, marks => marks
  | fuel + 1, frontier, marks =>
    match frontier.dropWhile fun index => marks.getD index true with
    | [] => marks
    | index :: rest => flood next fuel (next index ++ rest) (marks.setIfInBounds index true)

def reached (graph : Graph α) (next : Nat → List Nat) (seeds : List Nat) : Array Bool :=
  flood next graph.slots.size seeds (Array.replicate graph.slots.size false)

/-- Marks the seeds and everything they read. -/
def markRead (graph : Graph α) (seeds : List Nat) : Array Bool :=
  graph.reached graph.prerequisiteSlots seeds

/-- Marks the seeds and everything that reads them. -/
def markReaders (graph : Graph α) (seeds : List Nat) : Array Bool :=
  graph.reached graph.dependentSlots seeds

section

variable [DecidableEq α]

/-- Whether `reader` is `target` or reads it, directly or through others. -/
def dependsOn (graph : Graph α) (reader target : α) : Bool :=
  match graph.indexOf? reader, graph.indexOf? target with
  | some start, some goal => (graph.markRead [start]).getD goal false
  | _, _ => false

/-- Declares that `dependent` reads `prerequisite`; either node is added when it is missing. -/
def declare (graph : Graph α) (prerequisite dependent : α) :
    Except (CycleError α) (Graph α) :=
  if prerequisite = dependent ∨ graph.dependsOn prerequisite dependent then
    .error ⟨prerequisite, dependent⟩
  else
    let (source, graph) := graph.intern prerequisite
    let (target, graph) := graph.intern dependent
    .ok (graph.link source target)

end

/-! The part of a graph downstream of some seeds. -/

structure Scope where
  members : Array Bool
  /-- For each member, how many of its prerequisites are members too. -/
  pending : Array Nat

def scope (graph : Graph α) (seeds : List Nat) : Scope :=
  let members := graph.markReaders seeds
  { members
    pending := Array.ofFn fun (index : Fin graph.slots.size) =>
      if members.getD index false then
        (graph.prerequisiteSlots index).countP fun prerequisite => members.getD prerequisite false
      else 0 }

/-- The slots of the nodes that are present, each at its first mention. -/
def present [DecidableEq α] (graph : Graph α) (starts : List α) : List Nat :=
  starts.foldl (fun seeds node =>
    match graph.indexOf? node with
    | some index => if index ∈ seeds then seeds else seeds ++ [index]
    | none => seeds) []

/-- The starts that no other start leads to. -/
def independent [DecidableEq α] (graph : Graph α) (starts : List α) : List α :=
  let seeds := graph.present starts
  let scope := graph.scope seeds
  graph.nodesAt (seeds.filter fun index => scope.pending.getD index 0 == 0)

end Graph

end RegionLayout
