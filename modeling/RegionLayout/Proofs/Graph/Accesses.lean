import Mathlib.Algebra.Group.Nat.Defs
import RegionLayout.Proofs.Graph.Starts

/-!
Accesses of prerequisite graphs. `Guarded` holds the operations on a graph as a machine takes
them: one access after another, each of which may leave its array, and with numbers that have to fit
into a word. On a sound graph no access fails, and the operations are those that run.
-/

namespace RegionLayout.Graph

variable {α β γ : Type}

/-- What an operation can run into. -/
inductive Fault where
  | outOfBounds (index : Nat)
  /-- A node is read from an empty slot. -/
  | vacated (index : Nat)
  /-- Zero is counted down. -/
  | underflow (index : Nat)
  /-- A number does not fit into a word. -/
  | overflow (count : Nat)
  /-- A loop is not over after as many rounds as there are slots. -/
  | unfinished
  deriving DecidableEq

/-- Every number of a slot, and every number of slots, fits into a word. -/
def Addressable (graph : Graph α) : Prop :=
  graph.slots.size < 2 ^ 32

instance (graph : Graph α) : Decidable graph.Addressable :=
  inferInstanceAs (Decidable (graph.slots.size < 2 ^ 32))

namespace Guarded

theorem ok_bind (item : β) (next : β → Except Fault γ) : (Except.ok item >>= next) = next item :=
  rfl

/-! Single accesses. -/

def fetch (items : Array β) (index : Nat) : Except Fault β :=
  match items[index]? with
  | some item => .ok item
  | none => .error (.outOfBounds index)

def put (items : Array β) (index : Nat) (item : β) : Except Fault (Array β) :=
  if index < items.size then .ok (items.setIfInBounds index item) else .error (.outOfBounds index)

def word (count : Nat) : Except Fault Nat :=
  if count < 2 ^ 32 then .ok count else .error (.overflow count)

/-- The places whose items pass a test, each item fetched for it. -/
def sift (items : Array β) (keep : β → Bool) : List Nat → Except Fault (List Nat)
  | [] => .ok []
  | place :: rest => do
    let item ← fetch items place
    let kept ← sift items keep rest
    return if keep item then place :: kept else kept

section Accesses

variable {items : Array β} {index : Nat}

theorem fetch_eq (default : β) (hlt : index < items.size) :
    fetch items index = .ok (items.getD index default) := by
  simp [fetch, hlt]

theorem put_eq (hlt : index < items.size) (item : β) :
    put items index item = .ok (items.setIfInBounds index item) :=
  if_pos hlt

theorem word_eq {count : Nat} (hfits : count < 2 ^ 32) : word count = .ok count :=
  if_pos hfits

theorem sift_eq (default : β) (keep : β → Bool) {places : List Nat}
    (hlt : ∀ place ∈ places, place < items.size) :
    sift items keep places = .ok (places.filter fun place => keep (items.getD place default)) := by
  induction places with
  | nil => rfl
  | cons first rest ih =>
      obtain ⟨hfirst, hrest⟩ := List.forall_mem_cons.mp hlt
      rw [sift, fetch_eq default hfirst, ok_bind, ih hrest, ok_bind, List.filter_cons]
      rfl

end Accesses

/-- A loop whose steps all go through, seen as a fold. -/
theorem exists_foldlM {δ : Type} (step : β → γ → Except Fault β) (run : δ → γ → δ)
    (like : β → δ → Prop) (items : List γ)
    (hstep : ∀ state view, like state view → ∀ item ∈ items,
      ∃ next, step state item = .ok next ∧ like next (run view item))
    {state : β} {view : δ} (hlike : like state view) :
    ∃ last, items.foldlM step state = .ok last ∧ like last (items.foldl run view) := by
  induction items generalizing state view with
  | nil => exact ⟨state, rfl, hlike⟩
  | cons first rest ih =>
      obtain ⟨next, heq, hnext⟩ := hstep state view hlike first List.mem_cons_self
      rw [List.foldlM_cons, heq, ok_bind, List.foldl_cons]
      exact ih (fun state view hlike item hitem =>
        hstep state view hlike item (List.mem_cons_of_mem _ hitem)) hnext

theorem foldlM_eq {step : β → γ → Except Fault β} {run : β → γ → β} (holds : β → Prop)
    {items : List γ} (hstep : ∀ state, holds state → ∀ item ∈ items,
      step state item = .ok (run state item) ∧ holds (run state item))
    {state : β} (hstate : holds state) :
    items.foldlM step state = .ok (items.foldl run state) := by
  obtain ⟨last, heq, rfl, _⟩ := exists_foldlM step run
    (fun state view => state = view ∧ holds state) items
    (fun state view ⟨hview, hstate⟩ item hitem => hview ▸
      ⟨run state item, (hstep state hstate item hitem).1, rfl, (hstep state hstate item hitem).2⟩)
    ⟨rfl, hstate⟩
  exact heq

theorem mapM_eq {read : β → Except Fault γ} {run : β → γ} {items : List β}
    (hread : ∀ item ∈ items, read item = .ok (run item)) :
    items.mapM read = .ok (items.map run) := by
  induction items with
  | nil => rfl
  | cons first rest ih =>
      obtain ⟨hfirst, hrest⟩ := List.forall_mem_cons.mp hread
      rw [List.mapM_cons, hfirst, ok_bind, ih hrest, ok_bind]
      rfl

/-! Slots. -/

/-- Changes what a slot holds, if it holds anything. -/
def edit (graph : Graph α) (index : Nat) (change : Slot α → Slot α) : Except Fault (Graph α) := do
  let _ ← fetch graph.slots index
  return graph.edit index change

/-- The node of a slot that must not be empty. -/
def nodeAt (graph : Graph α) (index : Nat) : Except Fault α := do
  match ← fetch graph.slots index with
  | some slot => return slot.node
  | none => throw (.vacated index)

/-- The nodes of slots that may be empty. -/
def nodesAt (graph : Graph α) (indices : List Nat) : Except Fault (List α) := do
  let slots ← indices.mapM (fetch graph.slots)
  return slots.filterMap fun slot => slot.map (·.node)

def allocate (graph : Graph α) (node : α) : Except Fault (Nat × Graph α) := do
  match graph.vacant with
  | index :: _ =>
    let _ ← fetch graph.slots index
    return graph.allocate node
  | [] =>
    let _ ← word graph.slots.size
    return graph.allocate node

def link (graph : Graph α) (prerequisite dependent : Nat) : Except Fault (Graph α) := do
  match ← fetch graph.slots dependent with
  | none => return graph
  | some slot =>
    if prerequisite ∈ slot.prerequisites then return graph
    else
      let graph ← edit graph dependent fun held =>
        { held with prerequisites := held.prerequisites ++ [prerequisite] }
      edit graph prerequisite fun held =>
        { held with dependents := held.dependents ++ [dependent] }

def vacate (graph : Graph α) (index : Nat) (slot : Slot α) : Except Fault (Graph α) := do
  let cleared : Graph α := { graph with slots := graph.slots.setIfInBounds index none }
  let forgotten ← slot.prerequisites.foldlM (fun graph prerequisite =>
    edit graph prerequisite fun held =>
      { held with dependents := held.dependents.filter (· ≠ index) }) cleared
  let disconnected ← slot.dependents.foldlM (fun graph dependent =>
    edit graph dependent fun held =>
      { held with prerequisites := held.prerequisites.filter (· ≠ index) }) forgotten
  return { disconnected with vacant := index :: disconnected.vacant }

section Slots

variable {graph : Graph α}

theorem fetch_slots {index : Nat} (hlt : index < graph.slots.size) :
    fetch graph.slots index = .ok (graph.slot? index) := by
  rw [fetch_eq none hlt]
  simp [slot?, hlt]

theorem edit_eq {index : Nat} (hlt : index < graph.slots.size) (change : Slot α → Slot α) :
    edit graph index change = .ok (graph.edit index change) := by
  rw [edit, fetch_slots hlt]
  rfl

theorem foldlM_edit_eq {places : List Nat} (hlt : ∀ place ∈ places, place < graph.slots.size)
    (change : Slot α → Slot α) :
    places.foldlM (fun graph place => edit graph place change) graph =
      .ok (places.foldl (fun graph place => graph.edit place change) graph) := by
  refine foldlM_eq (fun other => other.slots.size = graph.slots.size)
    (fun other hsize place hplace => ⟨edit_eq (hsize ▸ hlt place hplace) change, ?_⟩) rfl
  rw [slots_size_edit, hsize]

theorem nodeAt_eq {index : Nat} {node : α} (hholds : graph.Holds index node) :
    nodeAt graph index = .ok node := by
  obtain ⟨slot, hslot, rfl⟩ := hholds
  rw [nodeAt, fetch_slots (slot?_eq_some_lt hslot), hslot]
  rfl

theorem nodesAt_eq {indices : List Nat} (hlt : ∀ index ∈ indices, index < graph.slots.size) :
    nodesAt graph indices = .ok (graph.nodesAt indices) := by
  rw [nodesAt, mapM_eq fun index hindex => fetch_slots (hlt index hindex), ok_bind,
    List.filterMap_map]
  rfl

theorem mapM_nodeAt_eq {indices : List Nat}
    (hheld : ∀ index ∈ indices, ∃ node, graph.Holds index node) :
    indices.mapM (nodeAt graph) = .ok (graph.nodesAt indices) := by
  induction indices with
  | nil => rfl
  | cons first rest ih =>
      obtain ⟨⟨node, hfirst⟩, hrest⟩ := List.forall_mem_cons.mp hheld
      have hnodes : graph.nodesAt (first :: rest) = node :: graph.nodesAt rest :=
        List.filterMap_cons_some (holds_iff_map.mp hfirst)
      rw [List.mapM_cons, nodeAt_eq hfirst, ok_bind, ih hrest, ok_bind, hnodes]
      rfl

theorem link_eq {prerequisite dependent : Nat} (hsource : prerequisite < graph.slots.size)
    {node : α} (htarget : graph.Holds dependent node) :
    link graph prerequisite dependent = .ok (graph.link prerequisite dependent) := by
  obtain ⟨slot, hslot, _⟩ := htarget
  rw [link, fetch_slots (slot?_eq_some_lt hslot), hslot, ok_bind, Graph.link,
    prerequisiteSlots_of_slot? hslot]
  dsimp only
  split
  next => rfl
  next =>
    rw [edit_eq (slot?_eq_some_lt hslot), ok_bind]
    exact edit_eq (by rwa [slots_size_edit]) _

theorem vacate_eq {index : Nat} {slot : Slot α}
    (hprerequisites : ∀ place ∈ slot.prerequisites, place < graph.slots.size)
    (hdependents : ∀ place ∈ slot.dependents, place < graph.slots.size) :
    vacate graph index slot = .ok (graph.vacate index slot) := by
  have hcleared : (graph.slots.setIfInBounds index none).size = graph.slots.size :=
    Array.size_setIfInBounds
  dsimp only [vacate]
  rw [foldlM_edit_eq (hcleared.symm ▸ hprerequisites), ok_bind, foldlM_edit_eq, ok_bind]
  · rfl
  · intro place hplace
    rw [(keeps_foldl_edit _ _ _).2.2]
    exact hcleared.symm ▸ hdependents place hplace

theorem lt_of_slot (hsound : graph.Sound) {index : Nat} {slot : Slot α}
    (hslot : graph.slot? index = some slot) (direction : Direction) :
    ∀ place ∈ direction.neighbours slot, place < graph.slots.size := by
  intro place hplace
  have hlinks : place ∈ graph.links direction index := by simpa [links, hslot] using hplace
  exact (hsound.exists_holds_of_mem_links hlinks).choose_spec.lt

theorem allocate_eq (hsound : graph.Sound) {node : α}
    (hfits : (graph.allocate node).2.Addressable) :
    allocate graph node = .ok (graph.allocate node) := by
  unfold allocate
  split
  next index rest hvacant =>
    have hlt := (hsound.mem_vacant_iff.mp (hvacant ▸ List.mem_cons_self : index ∈ graph.vacant)).1
    rw [fetch_slots hlt]
    rfl
  next hvacant =>
    simp only [Graph.allocate, hvacant, Addressable, Array.size_push] at hfits
    rw [word_eq (by omega)]
    rfl

end Slots

/-! Nodes and edges. -/

variable [DecidableEq α]

def intern (graph : Graph α) (node : α) : Except Fault (Nat × Graph α) :=
  match graph.indexOf? node with
  | some index => .ok (index, graph)
  | none => allocate graph node

def addNode (graph : Graph α) (node : α) : Except Fault (Bool × Graph α) := do
  if graph.contains node then return (false, graph)
  else
    let (_, graph) ← intern graph node
    return (true, graph)

def removeNode (graph : Graph α) (node : α) : Except Fault (Bool × Graph α) := do
  match graph.indexOf? node with
  | none => return (false, graph)
  | some index =>
    let forgotten := graph.forget node
    match ← fetch forgotten.slots index with
    | none => return (false, forgotten)
    | some slot =>
      let vacated ← vacate forgotten index slot
      return (true, vacated)

def revoke (graph : Graph α) (prerequisite dependent : α) : Except Fault (Bool × Graph α) := do
  match graph.indexOf? prerequisite, graph.indexOf? dependent with
  | some source, some target =>
    match ← fetch graph.slots target with
    | none => return (false, graph)
    | some slot =>
      if source ∈ slot.prerequisites then
        let graph ← edit graph target fun held =>
          { held with prerequisites := held.prerequisites.filter (· ≠ source) }
        let graph ← edit graph source fun held =>
          { held with dependents := held.dependents.filter (· ≠ target) }
        return (true, graph)
      else return (false, graph)
  | _, _ => return (false, graph)

def find? (graph : Graph α) (node : α) : Except Fault (Option (Slot α)) :=
  match graph.indexOf? node with
  | some index => fetch graph.slots index
  | none => .ok none

def neighbours (graph : Graph α) (direction : Direction) (node : α) : Except Fault (List α) := do
  let slot ← find? graph node
  nodesAt graph ((slot.map direction.neighbours).getD [])

def isSource (graph : Graph α) (node : α) : Except Fault Bool := do
  let slot ← find? graph node
  return slot.any (·.isSource)

section Nodes

variable {graph : Graph α} (hsound : graph.Sound)

theorem size_le_intern (graph : Graph α) (node : α) :
    graph.slots.size ≤ (graph.intern node).2.slots.size := by
  unfold Graph.intern
  split
  next => exact Nat.le_refl _
  next =>
    unfold Graph.allocate
    split <;> simp

include hsound

theorem intern_eq {node : α} (hfits : (graph.intern node).2.Addressable) :
    intern graph node = .ok (graph.intern node) := by
  unfold intern
  split
  next index hindex => rw [Graph.intern, hindex]
  next hnew =>
    simp only [Graph.intern, hnew] at hfits ⊢
    exact allocate_eq hsound hfits

theorem addNode_eq {node : α} (hfits : (graph.addNode node).2.Addressable) :
    addNode graph node = .ok (graph.addNode node) := by
  unfold addNode Graph.addNode at *
  split
  next => rfl
  next hnew =>
    rw [if_neg hnew] at hfits
    rw [intern_eq hsound hfits]
    rfl

theorem removeNode_eq (node : α) : removeNode graph node = .ok (graph.removeNode node) := by
  unfold removeNode Graph.removeNode
  cases hindex : graph.indexOf? node with
  | none => rfl
  | some index =>
      have hholds := indexOf?_sound hsound hindex
      have hlt : index < (graph.forget node).slots.size := hholds.lt
      obtain ⟨slot, hslot, _⟩ := hholds
      have hforgotten : (graph.forget node).slot? index = some slot := hslot
      have hvacate : vacate (graph.forget node) index slot =
          .ok ((graph.forget node).vacate index slot) :=
        vacate_eq (lt_of_slot hsound hslot .prerequisites) (lt_of_slot hsound hslot .dependents)
      dsimp only
      rw [fetch_slots hlt, hforgotten, ok_bind]
      dsimp only
      rw [hvacate]
      rfl

theorem revoke_eq (prerequisite dependent : α) :
    revoke graph prerequisite dependent = .ok (graph.revoke prerequisite dependent) := by
  unfold revoke Graph.revoke
  cases hsource : graph.indexOf? prerequisite with
  | none => rfl
  | some source =>
      cases htarget : graph.indexOf? dependent with
      | none => rfl
      | some target =>
          have hheld := (indexOf?_sound hsound hsource).lt
          obtain ⟨slot, hslot, _⟩ := indexOf?_sound hsound htarget
          have hlt := slot?_eq_some_lt hslot
          dsimp only
          rw [fetch_slots hlt, hslot, ok_bind, prerequisiteSlots_of_slot? hslot]
          dsimp only
          split
          next =>
            rw [edit_eq hlt, ok_bind, edit_eq (by rwa [slots_size_edit])]
            rfl
          next => rfl

theorem find?_eq (node : α) : find? graph node = .ok (graph.find? node) := by
  unfold find? Graph.find?
  cases hindex : graph.indexOf? node with
  | none => rfl
  | some index => exact fetch_slots (indexOf?_sound hsound hindex).lt

theorem isSource_eq (node : α) : isSource graph node = .ok (graph.isSource node) := by
  rw [isSource, find?_eq hsound]
  rfl

theorem neighbours_eq (direction : Direction) (node : α) :
    neighbours graph direction node = .ok (graph.listed direction node) := by
  rw [neighbours, find?_eq hsound, ok_bind, listed, Graph.find?]
  cases hindex : graph.indexOf? node with
  | none => rfl
  | some index =>
      exact nodesAt_eq fun place hplace =>
        (hsound.exists_holds_of_mem_links hplace).choose_spec.lt

end Nodes

end Guarded

end RegionLayout.Graph
