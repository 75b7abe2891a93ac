import RegionLayout.Tree.Placement
import RegionLayout.Hive.Config
import RegionLayout.Hive.Backlog
import RegionLayout.Hive.Stats
import RegionLayout.Hive.Trace
import RegionLayout.Recipe

/-!
Hives. A hive owns a tree whose root is its viewport, registers the coordinates of the regions it
creates, and collects what they announce as work for the next layout pass.
-/

namespace RegionLayout

structure Hive where
  tree : RegionTree
  root : CellId
  /-- The constants that are the root's far edges. -/
  width : LengthId
  height : LengthId
  /-- Registered coordinates, in the order they were registered. -/
  registry : List CoordinateId
  graph : Graph CoordinateId
  pending : Backlog
  entities : Entities
  config : HiveConfig
  /-- Counters of the last pass that succeeded. -/
  stats : LayoutStats
  trace : Array TraceEvent

namespace Hive

def isRegistered (hive : Hive) (coordinate : CoordinateId) : Bool :=
  hive.registry.contains coordinate

/-- Whether work waits for the next pass. -/
def isDirty (hive : Hive) : Bool :=
  !hive.pending.isEmpty

def follow (hive : Hive) (event : TraceEvent) : Hive :=
  { hive with trace := hive.trace.push event }

/-! Edits of the tree. The hive hears what is added to the journal. -/

def adopt (hive : Hive) (tree : RegionTree) : Hive :=
  let news := tree.network.journal.toList.drop hive.tree.network.journal.size
  { hive with
    tree
    pending := news.foldl (Backlog.hear hive.isRegistered) hive.pending }

def edit (hive : Hive) (change : RegionTree → RegionTree) : Hive :=
  hive.adopt (change hive.tree)

/-- Starts a new journal and a new trace. -/
def clearJournal (hive : Hive) : Hive :=
  { hive with tree := hive.tree.clearJournal, trace := #[] }

def register (hive : Hive) (cell : CellId) : Hive :=
  { hive with
    registry := hive.registry ++ cell.coordinates
    pending := { hive.pending with
      fresh := cell.coordinates.foldl (fun fresh coordinate => fresh.insert coordinate)
        hive.pending.fresh } }

def ofConfig (config : HiveConfig) : Hive :=
  let (left, tree) := RegionTree.empty.addLength (.constant 0.0)
  let (width, tree) := tree.addLength (.constant config.viewportWidth)
  let (top, tree) := tree.addLength (.constant 0.0)
  let (height, tree) := tree.addLength (.constant config.viewportHeight)
  let (root, tree) := tree.createRoot ⟨left, width, top, height⟩
  let hive : Hive := {
    tree := tree.setName root (some "root")
    root
    width
    height
    registry := []
    graph := .empty
    pending := .empty
    entities := .empty
    config
    stats := .zero
    trace := #[] }
  hive.register root

def empty : Hive := ofConfig .standard

instance : Inhabited Hive := ⟨empty⟩

/-! The viewport. -/

def viewport (hive : Hive) : Float × Float :=
  ((hive.tree.constant? hive.width).getD 0.0, (hive.tree.constant? hive.height).getD 0.0)

def setViewport (hive : Hive) (width height : Float) : Hive :=
  hive.edit fun tree => (tree.setConstant hive.width width).setConstant hive.height height

/-! Regions. -/

/-- Creates a region where its recipe asks for it, as one entity of the cell and what comes with it.
Nothing is created if it cannot be placed. -/
def spawn (hive : Hive) (recipe : RegionRecipe) : Except LayoutError (CellId × Hive) :=
  let parent := recipe.parent.getD hive.root
  match hive.tree.cell? parent with
  | none => .error (.unknownCell parent)
  | some above =>
    let size := above.children.length
    let index := recipe.index.getD size
    if size < index then .error (.indexOutOfBounds parent index size)
    else
      let (cell, tree) := hive.tree.createCell recipe.recipes
      let placed := hive.adopt (tree.place parent cell index)
      let (entity, entities) := placed.entities.add (.cell cell :: recipe.components)
      let stored := { placed with tree := placed.tree.setEntity cell entity, entities }
      .ok (cell, (stored.register cell).follow (.regionCreated cell parent entity))

/-- Creates the region that a builder describes. -/
def newRegion (hive : Hive) (builder : CellBuilder) : Except LayoutError (CellId × Hive) :=
  match builder.finish with
  | .error failure => .error failure
  | .ok recipe => hive.spawn recipe

end Hive

end RegionLayout
