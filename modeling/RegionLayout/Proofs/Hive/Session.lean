import RegionLayout.Hive.Layout
import RegionLayout.Proofs.Tree.Session

/-!
Sessions. A session is what an application does with a hive, step after step: it edits the tree,
spawns regions, sets the viewport and lays out. A step that cannot be made changes nothing.
-/

namespace RegionLayout

/-- What a region builder is given. -/
structure RegionPlan where
  x : Option (String × String)
  y : Option (String × String)
  parent : Option CellId
  index : Option Nat
  components : List Component

namespace RegionPlan

/-- A boundary, or `none` if it names an unknown length; a boundary may be missing. -/
def boundary? (named : String → Option LengthId) :
    Option (String × String) → Option (Option (LengthId × LengthId))
  | none => some none
  | some (near, far) =>
    match named near, named far with
    | some alpha, some beta => some (some (alpha, beta))
    | _, _ => none

def builder? (plan : RegionPlan) (named : String → Option LengthId) : Option CellBuilder :=
  match boundary? named plan.x, boundary? named plan.y with
  | some x, some y => some ⟨x, y, plan.parent, plan.index, plan.components⟩
  | _, _ => none

end RegionPlan

/-! Steps. -/

inductive Action where
  | edit (edit : TreeEdit)
  /-- Calculates one coordinate outside of any pass. -/
  | calculate (coordinate : CoordinateId)
  | spawn (names : RecipeNames) (parent : Option CellId) (index : Option Nat)
      (components : List Component)
  | newRegion (plan : RegionPlan)
  | setViewport (width height : Float)
  | layout

namespace Hive

def attempt (hive : Hive) : Except LayoutError (CellId × Hive) → Hive
  | .ok (_, after) => after
  | .error _ => hive

def perform (hive : Hive) : Action → Hive
  | .edit edit => hive.edit fun tree => edit.apply tree
  | .calculate coordinate => hive.edit fun tree => (tree.calculate coordinate).2
  | .spawn names parent index components =>
    match names.recipes? hive.tree.named? with
    | some recipes => hive.attempt (hive.spawn ⟨recipes, parent, index, components⟩)
    | none => hive
  | .newRegion plan =>
    match plan.builder? hive.tree.named? with
    | some builder => hive.attempt (hive.newRegion builder)
    | none => hive
  | .setViewport width height => hive.setViewport width height
  | .layout => hive.layout.2

/-- The hive after a session. -/
def after (config : HiveConfig) (actions : List Action) : Hive :=
  actions.foldl perform (ofConfig config)

end Hive

end RegionLayout
