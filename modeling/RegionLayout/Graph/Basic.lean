/-!
Prerequisite graphs. An edge from a prerequisite to a dependent says that the dependent reads the
prerequisite. Nodes live in numbered slots, an index says which slot a node has, every slot lists
both directions of its edges by slot number, and the slots that removals vacate are filled again,
the last vacated first.
-/

namespace RegionLayout

structure Slot (α : Type) where
  node : α
  /-- Slots this node reads, in the order the edges were declared. -/
  prerequisites : List Nat
  /-- Slots that read this node, in the order the edges were declared. -/
  dependents : List Nat

structure Graph (α : Type) where
  slots : Array (Option (Slot α))
  /-- The slot of each node, the latest node first. -/
  index : List (α × Nat)
  /-- Numbers of the empty slots; the next node takes the first of them. -/
  vacant : List Nat

namespace Slot

def isolated (node : α) : Slot α :=
  ⟨node, [], []⟩

def isSource (slot : Slot α) : Bool :=
  slot.prerequisites.isEmpty

end Slot

namespace Graph

def empty : Graph α := ⟨#[], [], []⟩

instance : Inhabited (Graph α) := ⟨empty⟩

/-! Looking slots up. -/

def slot? (graph : Graph α) (index : Nat) : Option (Slot α) :=
  graph.slots[index]?.join

def occupied (graph : Graph α) : List (Slot α) :=
  graph.slots.toList.filterMap id

def nodes (graph : Graph α) : List α :=
  graph.occupied.map (·.node)

def prerequisiteSlots (graph : Graph α) (index : Nat) : List Nat :=
  ((graph.slot? index).map (·.prerequisites)).getD []

def dependentSlots (graph : Graph α) (index : Nat) : List Nat :=
  ((graph.slot? index).map (·.dependents)).getD []

def nodesAt (graph : Graph α) (indices : List Nat) : List α :=
  indices.filterMap fun index => (graph.slot? index).map (·.node)

def nodeCount (graph : Graph α) : Nat :=
  graph.index.length

def edgeCount (graph : Graph α) : Nat :=
  graph.occupied.foldl (fun count slot => count + slot.prerequisites.length) 0

def isEmpty (graph : Graph α) : Bool :=
  graph.index.isEmpty

/-- Nodes without prerequisites, in slot order. -/
def sources (graph : Graph α) : List α :=
  (graph.occupied.filter (·.isSource)).map (·.node)

section Lookup

variable [DecidableEq α]

def indexOf? (graph : Graph α) (node : α) : Option Nat :=
  graph.index.lookup node

def contains (graph : Graph α) (node : α) : Bool :=
  (graph.indexOf? node).isSome

def find? (graph : Graph α) (node : α) : Option (Slot α) :=
  (graph.indexOf? node).bind graph.slot?

/-- Direct prerequisites, in the order they were declared. -/
def prerequisites (graph : Graph α) (node : α) : List α :=
  graph.nodesAt (((graph.find? node).map (·.prerequisites)).getD [])

/-- Direct dependents, in the order they were declared. -/
def dependents (graph : Graph α) (node : α) : List α :=
  graph.nodesAt (((graph.find? node).map (·.dependents)).getD [])

def isSource (graph : Graph α) (node : α) : Bool :=
  (graph.find? node).any (·.isSource)

end Lookup

/-! Changes of slots. -/

def allocate (graph : Graph α) (node : α) : Nat × Graph α :=
  match graph.vacant with
  | index :: rest =>
    (index, ⟨graph.slots.setIfInBounds index (some (.isolated node)),
      (node, index) :: graph.index, rest⟩)
  | [] =>
    (graph.slots.size, ⟨graph.slots.push (some (.isolated node)),
      (node, graph.slots.size) :: graph.index, []⟩)

def edit (graph : Graph α) (index : Nat) (change : Slot α → Slot α) : Graph α :=
  { graph with slots := graph.slots.modify index (Option.map change) }

def link (graph : Graph α) (prerequisite dependent : Nat) : Graph α :=
  if prerequisite ∈ graph.prerequisiteSlots dependent then graph
  else
    (graph.edit dependent fun held =>
      { held with prerequisites := held.prerequisites ++ [prerequisite] }).edit prerequisite
      fun held => { held with dependents := held.dependents ++ [dependent] }

def unlink (graph : Graph α) (prerequisite dependent : Nat) : Graph α :=
  (graph.edit dependent fun held =>
    { held with prerequisites := held.prerequisites.filter (· ≠ prerequisite) }).edit prerequisite
    fun held => { held with dependents := held.dependents.filter (· ≠ dependent) }

/-- Takes a slot out of the dependents of all its prerequisites and out of the prerequisites of all
its dependents. -/
def disconnect (graph : Graph α) (index : Nat) (slot : Slot α) : Graph α :=
  let forgotten := slot.prerequisites.foldl (fun graph prerequisite =>
    graph.edit prerequisite fun held =>
      { held with dependents := held.dependents.filter (· ≠ index) }) graph
  slot.dependents.foldl (fun graph dependent =>
    graph.edit dependent fun held =>
      { held with prerequisites := held.prerequisites.filter (· ≠ index) }) forgotten

def vacate (graph : Graph α) (index : Nat) (slot : Slot α) : Graph α :=
  let cleared : Graph α := { graph with slots := graph.slots.setIfInBounds index none }
  let disconnected := cleared.disconnect index slot
  { disconnected with vacant := index :: disconnected.vacant }

/-! Changes of nodes and edges; a flag says whether there was anything to do. -/

section Change

variable [DecidableEq α]

def intern (graph : Graph α) (node : α) : Nat × Graph α :=
  match graph.indexOf? node with
  | some index => (index, graph)
  | none => graph.allocate node

def addNode (graph : Graph α) (node : α) : Bool × Graph α :=
  if graph.contains node then (false, graph) else (true, (graph.intern node).2)

/-- Takes a node out of the index. -/
def forget (graph : Graph α) (node : α) : Graph α :=
  { graph with index := graph.index.filter fun entry => entry.1 ≠ node }

/-- Removes a node with every edge at it. -/
def removeNode (graph : Graph α) (node : α) : Bool × Graph α :=
  match graph.indexOf? node with
  | none => (false, graph)
  | some index =>
    let forgotten := graph.forget node
    match forgotten.slot? index with
    | none => (false, forgotten)
    | some slot => (true, forgotten.vacate index slot)

/-- Takes an edge back. -/
def revoke (graph : Graph α) (prerequisite dependent : α) : Bool × Graph α :=
  match graph.indexOf? prerequisite, graph.indexOf? dependent with
  | some source, some target =>
    if source ∈ graph.prerequisiteSlots target then (true, graph.unlink source target)
    else (false, graph)
  | _, _ => (false, graph)

end Change

end Graph

end RegionLayout
