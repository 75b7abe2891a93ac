import RegionLayout.Graph.Reach

/-!
Traversal in dependency order. A visitor may answer that a node's output did not change; a dependent
is then visited only if some other prerequisite in scope passed its output on, or if it was asked
for. A visitor carries a state, and the state at a failure is kept.
-/

namespace RegionLayout

/-- What a visitor says of the node it visited. -/
inductive Flow where
  /-- The output is new: dependents may have to be visited. -/
  | pass
  /-- The output is unchanged: nothing is passed on from here. -/
  | stop
  deriving DecidableEq, Repr

abbrev Visitor (α ε σ : Type) := α → σ → Except ε Flow × σ

namespace Graph

/-! The slots that are ready, and what is known of the others. -/

structure Frontier where
  /-- Slots whose prerequisites in scope are all settled; the first is taken next. -/
  ready : List Nat
  /-- For each slot, how many of its prerequisites in scope are not settled. -/
  pending : Array Nat
  /-- Marks the slots that are asked for or have a prerequisite that passed. -/
  wanted : Array Bool

namespace Frontier

def start (scope : Scope) (seeds : List Nat) : Frontier where
  ready := seeds.filter fun index => scope.pending.getD index 0 == 0
  pending := scope.pending
  wanted := seeds.foldl (fun wanted index => wanted.setIfInBounds index true)
    (Array.replicate scope.members.size false)

/-- Tells a dependent that one of its prerequisites is settled. -/
def settle (frontier : Frontier) (passes : Bool) (dependent : Nat) : Frontier :=
  let left := frontier.pending.getD dependent 0 - 1
  { ready := if left = 0 then dependent :: frontier.ready else frontier.ready
    pending := frontier.pending.setIfInBounds dependent left
    wanted :=
      if passes then frontier.wanted.setIfInBounds dependent true else frontier.wanted }

def settleAll (frontier : Frontier) (members : Array Bool) (passes : Bool)
    (dependents : List Nat) : Frontier :=
  (dependents.filter fun dependent => members.getD dependent false).foldl
    (fun frontier dependent => frontier.settle passes dependent) frontier

end Frontier

/-- Takes ready slots one by one. A slot that nobody wants is settled without a visit and passes
nothing on. -/
def walk (graph : Graph α) (members : Array Bool) (visit : Visitor α ε σ) :
    Nat → Frontier → σ → Except ε Unit × σ
  | 0, _, state => (.ok (), state)
  | fuel + 1, frontier, state =>
    match frontier.ready with
    | [] => (.ok (), state)
    | index :: rest =>
      let frontier := { frontier with ready := rest }
      match graph.slot? index with
      | none => walk graph members visit fuel frontier state
      | some slot =>
        if frontier.wanted.getD index false then
          match visit slot.node state with
          | (.error failure, state) => (.error failure, state)
          | (.ok flow, state) =>
            walk graph members visit fuel
              (frontier.settleAll members (flow == .pass) slot.dependents) state
        else
          walk graph members visit fuel (frontier.settleAll members false slot.dependents) state

/-- A visitor that never fails. -/
def steady (visit : α → σ → Flow × σ) : Visitor α Empty σ :=
  fun node state =>
    let (flow, state) := visit node state
    (.ok flow, state)

/-- Lists the nodes it visits. -/
def record (node : α) (order : Array α) : Flow × Array α :=
  (.pass, order.push node)

variable [DecidableEq α]

/-- Visits what is downstream of `starts` and live, each node after everything it reads. -/
def traverseFrom (graph : Graph α) (starts : List α) (visit : Visitor α ε σ) (state : σ) :
    Except ε Unit × σ :=
  let seeds := graph.present starts
  let scope := graph.scope seeds
  graph.walk scope.members visit graph.slots.size (.start scope seeds) state

def traverse (graph : Graph α) (visit : Visitor α ε σ) (state : σ) : Except ε Unit × σ :=
  graph.traverseFrom graph.sources visit state

def processFrom (graph : Graph α) (starts : List α) (visit : α → σ → Flow × σ) (state : σ) : σ :=
  (graph.traverseFrom starts (steady visit) state).2

/-! Listing nodes in dependency order. -/

def orderFrom (graph : Graph α) (starts : List α) : List α :=
  (graph.processFrom starts record #[]).toList

def order (graph : Graph α) : List α :=
  graph.orderFrom graph.sources

end Graph

end RegionLayout
