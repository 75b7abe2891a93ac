import RegionLayout.Cell

/-!
Recipes of cells, and the builder that collects their parts. Both axes are needed; the first missing
one is reported.
-/

namespace RegionLayout

structure RegionRecipe where
  recipes : Recipes
  /-- The cell to attach to, in place of the root. -/
  parent : Option CellId
  /-- The position among the parent's children, in place of the last. -/
  index : Option Nat
  components : List Component

structure CellBuilder where
  x : Option (LengthId × LengthId)
  y : Option (LengthId × LengthId)
  parent : Option CellId
  index : Option Nat
  components : List Component

namespace CellBuilder

def empty : CellBuilder := ⟨none, none, none, none, []⟩

instance : Inhabited CellBuilder := ⟨empty⟩

def withX (builder : CellBuilder) (alpha beta : LengthId) : CellBuilder :=
  { builder with x := some (alpha, beta) }

def withY (builder : CellBuilder) (alpha beta : LengthId) : CellBuilder :=
  { builder with y := some (alpha, beta) }

def childOf (builder : CellBuilder) (parent : CellId) : CellBuilder :=
  { builder with parent := some parent }

def insertAt (builder : CellBuilder) (index : Nat) : CellBuilder :=
  { builder with index := some index }

def withComponent (builder : CellBuilder) (component : Component) : CellBuilder :=
  { builder with components := builder.components ++ [component] }

def finish (builder : CellBuilder) : Except LayoutError RegionRecipe :=
  match builder.x, builder.y with
  | none, _ => .error (.incompleteRecipe "x boundary")
  | _, none => .error (.incompleteRecipe "y boundary")
  | some (xAlpha, xBeta), some (yAlpha, yBeta) =>
    .ok ⟨⟨xAlpha, xBeta, yAlpha, yBeta⟩, builder.parent, builder.index, builder.components⟩

def inspect (builder : CellBuilder) : String :=
  Record.full "CellBuilder" [("x", Record.flag builder.x.isSome),
    ("y", Record.flag builder.y.isSome),
    ("parent", Record.optional (builder.parent.map CellId.inspect)),
    ("index", Record.optional (builder.index.map toString))]

end CellBuilder

end RegionLayout
