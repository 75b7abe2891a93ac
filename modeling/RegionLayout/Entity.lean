import RegionLayout.Position

/-!
Entities. An entity is a row of components; its number is its place in the store and is never given
out again.
-/

namespace RegionLayout

structure EntityId where
  index : Nat
  deriving DecidableEq, Repr

def EntityId.text (entity : EntityId) : String :=
  s!"entity#{entity.index}"

inductive ComponentKind where
  | number
  | text
  | measure
  | flag
  | cell
  deriving DecidableEq, Repr

inductive Component where
  | number (value : Int)
  | text (value : String)
  | measure (value : Float)
  | flag (value : Bool)
  | cell (value : CellId)
  deriving Repr

def Component.kind : Component → ComponentKind
  | number _ => .number
  | text _ => .text
  | measure _ => .measure
  | flag _ => .flag
  | cell _ => .cell

structure Entities where
  rows : Array (List Component)

namespace Entities

def empty : Entities := ⟨#[]⟩

instance : Inhabited Entities := ⟨empty⟩

def size (entities : Entities) : Nat :=
  entities.rows.size

def isEmpty (entities : Entities) : Bool :=
  entities.rows.isEmpty

def add (entities : Entities) (components : List Component) : EntityId × Entities :=
  (⟨entities.size⟩, ⟨entities.rows.push components⟩)

def components? (entities : Entities) (entity : EntityId) : Option (List Component) :=
  entities.rows[entity.index]?

/-- The first component of a kind. -/
def component? (entities : Entities) (entity : EntityId) (kind : ComponentKind) :
    Option Component :=
  (entities.components? entity).bind fun row => row.find? fun component => component.kind == kind

def inspect (entities : Entities) : String :=
  Record.full "Entities" [("len", toString entities.size)]

theorem components?_add (entities : Entities) (components : List Component) :
    (entities.add components).2.components? (entities.add components).1 = some components := by
  simp [add, components?, size]

end Entities

end RegionLayout
