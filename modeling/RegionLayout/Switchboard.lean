import RegionLayout.Text.Record

/-!
Notification channels. A subscriber stays on a channel while its guard is held; a channel forgets
the others when it next emits. An emission delivers to the subscribers it finds at its start, in the
order they came, and keeps each of them callable until it ends, whoever drops a guard meanwhile.
-/

namespace RegionLayout

namespace Switchboard

/-- What a subscriber does after it heard an event. -/
inductive Reaction where
  /-- Emits the event's predecessor, as long as the event is positive. -/
  | emit (handle : Nat)
  | drop (tag : String)
  | subscribe (handle : Nat) (tag : String)
  deriving DecidableEq, Repr

structure Subscriber where
  tag : String
  reaction : Option Reaction
  deriving DecidableEq, Repr

/-- A delivery in progress. -/
structure Emission where
  /-- How many emissions began before. -/
  number : Nat
  value : Int
  /-- Numbers of the subscribers that were found at the start. -/
  snapshot : List Nat
  /-- Those of them that still have to be told. -/
  waiting : List Nat
  deriving DecidableEq, Repr

/-- A subscriber was told an event. -/
structure Delivery where
  emission : Nat
  subscriber : Nat
  tag : String
  value : Int
  deriving DecidableEq, Repr

end Switchboard

open Switchboard in
structure Switchboard where
  /-- The channel behind each handle; handles of one channel share its subscribers. -/
  handles : Array Nat
  /-- For each channel the numbers of its subscribers, in the order they came. -/
  rosters : Array (List Nat)
  subscribers : Array Subscriber
  /-- The guards held, each with the number of its subscriber. -/
  guards : List (String × Nat)
  /-- Emissions in progress, the innermost first. -/
  emissions : List Emission
  /-- How many emissions have begun. -/
  begun : Nat
  deliveries : Array Delivery
  deriving DecidableEq, Repr

namespace Switchboard

def empty : Switchboard := ⟨#[], #[], #[], [], [], 0, #[]⟩

instance : Inhabited Switchboard := ⟨empty⟩

/-! Handles. -/

def addChannel (board : Switchboard) : Switchboard :=
  { board with
    handles := board.handles.push board.rosters.size
    rosters := board.rosters.push [] }

def shareChannel (board : Switchboard) (handle : Nat) : Switchboard :=
  { board with handles := board.handles.push (board.handles.getD handle 0) }

def roster (board : Switchboard) (channel : Nat) : List Nat :=
  board.rosters.getD channel []

/-- Subscribers of a handle's channel, with those that are gone but not yet forgotten. -/
def subscriberCount (board : Switchboard) (handle : Nat) : Nat :=
  (board.roster (board.handles.getD handle 0)).length

/-! Guards. -/

def isGuarded (board : Switchboard) (number : Nat) : Bool :=
  board.guards.any fun (_, guarded) => guarded == number

/-- A subscriber can be called while it is guarded or an emission in progress has found it. -/
def isAlive (board : Switchboard) (number : Nat) : Bool :=
  board.isGuarded number || board.emissions.any fun emission => emission.snapshot.contains number

def holdsTag (board : Switchboard) (tag : String) : Bool :=
  board.guards.any fun (held, _) => held == tag

/-- Subscribes, and keeps the guard in place of any other under the same tag. -/
def subscribe (board : Switchboard) (handle : Nat) (subscriber : Subscriber) : Switchboard :=
  let number := board.subscribers.size
  { board with
    rosters := board.rosters.modify (board.handles.getD handle 0) (· ++ [number])
    subscribers := board.subscribers.push subscriber
    guards := (subscriber.tag, number) ::
      board.guards.filter fun (tag, _) => tag != subscriber.tag }

/-- Drops a guard; the flag says whether it was held. -/
def drop (board : Switchboard) (tag : String) : Bool × Switchboard :=
  (board.holdsTag tag, { board with guards := board.guards.filter fun (held, _) => held != tag })

/-! Emission, in steps between which anything else may happen. -/

def beginEmission (board : Switchboard) (channel : Nat) (value : Int) : Switchboard :=
  let alive := (board.roster channel).filter board.isAlive
  { board with
    rosters := board.rosters.setIfInBounds channel alive
    emissions := ⟨board.begun, value, alive, alive⟩ :: board.emissions
    begun := board.begun + 1 }

/-- Tells the next subscriber of the innermost emission. -/
def deliverNext (board : Switchboard) : Option Reaction × Switchboard :=
  match board.emissions with
  | [] => (none, board)
  | emission :: outer =>
    match emission.waiting with
    | [] => (none, board)
    | number :: waiting =>
      let emissions := { emission with waiting } :: outer
      match board.subscribers[number]? with
      | none => (none, { board with emissions })
      | some subscriber =>
        let delivery := ⟨emission.number, number, subscriber.tag, emission.value⟩
        (subscriber.reaction,
          { board with emissions, deliveries := board.deliveries.push delivery })

def endEmission (board : Switchboard) : Switchboard :=
  { board with emissions := board.emissions.tail }

/-! Whole emissions. `emitAt` is given how an emission inside a reaction goes. -/

def react (nested : Nat → Switchboard → Switchboard) (board : Switchboard) :
    Option Reaction → Switchboard
  | none => board
  | some (.emit handle) => nested (board.handles.getD handle 0) board
  | some (.drop tag) => (board.drop tag).2
  | some (.subscribe handle tag) => board.subscribe handle ⟨tag, none⟩

def emitAt (nested : Nat → Switchboard → Switchboard) (channel : Nat) (value : Int)
    (board : Switchboard) : Switchboard :=
  let started := board.beginEmission channel value
  let waiting := (started.emissions.head?.map (·.waiting)).getD []
  (waiting.foldl (fun board _ =>
    let (reaction, told) := board.deliverNext
    told.react nested reaction) started).endEmission

def emitDown : Nat → Int → Nat → Switchboard → Switchboard
  | 0, value, channel, board => emitAt (fun _ board => board) channel value board
  | depth + 1, value, channel, board =>
    emitAt (emitDown depth (value - 1)) channel value board

/-- Emits `value`; reactions emit its predecessors, down to zero. -/
def emit (board : Switchboard) (handle : Nat) (value : Int) : Switchboard :=
  emitDown value.toNat value (board.handles.getD handle 0) board

/-! Texts. -/

def inspect (board : Switchboard) (handle : Nat) : String :=
  Record.full "Signal" [("subscriber_count", toString (board.subscriberCount handle))]

def inspectGuard (board : Switchboard) (tag : String) : Option String :=
  if board.holdsTag tag then some (Record.partly "Subscription" []) else none

end Switchboard

end RegionLayout
