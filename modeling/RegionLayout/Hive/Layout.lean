import RegionLayout.Graph.Traversal
import RegionLayout.Hive.Basic

/-!
Layout passes. A pass makes the graph match the recipes of new and rewired coordinates, and then
calculates what is downstream of new and invalidated ones, in dependency order, as far as relative
values change. A pass that fails keeps what it did and puts its work back.
-/

namespace RegionLayout

/-- A pass in progress. -/
structure Pass where
  tree : RegionTree
  graph : Graph CoordinateId
  stats : LayoutStats
  trace : Array TraceEvent

namespace Pass

def follow (pass : Pass) (event : TraceEvent) : Pass :=
  { pass with trace := pass.trace.push event }

/-! Edges. -/

def addNodes (pass : Pass) (coordinates : List CoordinateId) : Pass :=
  { pass with graph := coordinates.foldl (fun graph node => (graph.addNode node).2) pass.graph }

def revokeAll (dependent : CoordinateId) (stale : List CoordinateId)
    (graph : Graph CoordinateId) : Graph CoordinateId :=
  stale.foldl (fun graph prerequisite => (graph.revoke prerequisite dependent).2) graph

def declareAll (dependent : CoordinateId) :
    List CoordinateId → Graph CoordinateId →
      Except (CycleError CoordinateId) Unit × Graph CoordinateId
  | [], graph => (.ok (), graph)
  | prerequisite :: rest, graph =>
    match graph.declare prerequisite dependent with
    | .ok graph => declareAll dependent rest graph
    | .error cause => (.error cause, graph)

/-- Makes the edges into a coordinate match what its recipe reads. -/
def rewire (pass : Pass) (id : CoordinateId) : Except LayoutError Unit × Pass :=
  match pass.tree.coordinate? id with
  | none => (.error (.unknownCell id.cell), pass)
  | some coordinate =>
    let wanted := pass.tree.network.prerequisites coordinate.recipe
    let stale := (pass.graph.prerequisites id).filter fun held => !wanted.contains held
    match declareAll id wanted (revokeAll id stale pass.graph) with
    | (.ok (), graph) =>
      (.ok (), { pass with graph }.follow (.rewired id wanted.length stale.length))
    | (.error cause, graph) => (.error (.cycle cause), { pass with graph }.follow (.rejected cause))

def countRewired (pass : Pass) : Pass :=
  { pass with stats := { pass.stats with rewired := pass.stats.rewired + 1 } }

def rewireAll : List CoordinateId → Pass → Except LayoutError Unit × Pass
  | [], pass => (.ok (), pass)
  | id :: rest, pass =>
    match pass.rewire id with
    | (.ok (), pass) => rewireAll rest pass.countRewired
    | (.error failure, pass) => (.error failure, pass)

/-! Values. -/

/-- Calculates one coordinate; an equal relative value is not passed on. -/
def calculate : Visitor CoordinateId LayoutError Pass := fun id pass =>
  let before := pass.tree.relative id
  match pass.tree.calculate id with
  | (.error failure, tree) => (.error failure, { pass with tree })
  | (.ok after, tree) =>
    let stats := { pass.stats with calculated := pass.stats.calculated + 1 }
    let traced := { pass with tree }.follow (.calculated id)
    if before == after then
      (.ok .stop, { traced with stats := { stats with stopped := stats.stopped + 1 } })
    else (.ok .pass, { traced with stats })

def sweep (pass : Pass) (starts : List CoordinateId) : Except LayoutError Unit × Pass :=
  let seeded := { pass with stats := { pass.stats with seeded := starts.length } }
  pass.graph.traverseFrom starts calculate seeded

/-- Edges first, then values. -/
def run (pass : Pass) (fresh stale starts : List CoordinateId) : Except LayoutError Unit × Pass :=
  match rewireAll stale (pass.addNodes fresh) with
  | (.ok (), pass) => pass.sweep starts
  | (.error failure, pass) => (.error failure, pass)

end Pass

namespace Hive

/-- Where a pass that takes up `work` starts. -/
def starts (hive : Hive) (work : Backlog) : List CoordinateId :=
  if hive.config.forceFullLayout then hive.registry
  else (work.fresh.union work.invalidated).toList

def beginPass (hive : Hive) : Pass where
  tree := hive.tree
  graph := hive.graph
  stats := .zero
  trace := hive.trace.push .passStarted

def endPass (hive : Hive) (pass : Pass) : Hive :=
  { hive with tree := pass.tree, graph := pass.graph, trace := pass.trace }

def succeed (hive : Hive) (stats : LayoutStats) : Hive :=
  let recorded := ((hive.follow (.recorded "seeded" stats.seeded)).follow
    (.recorded "calculated" stats.calculated)).follow (.recorded "stopped" stats.stopped)
  { recorded with stats }

def abort (hive : Hive) (work : Backlog) (failure : LayoutError) : Hive :=
  { hive.follow (.aborted failure) with pending := hive.pending.merge work }

/-- Runs one layout pass. -/
def layout (hive : Hive) : Except LayoutError LayoutStats × Hive :=
  let work := hive.pending
  let idle := { hive with pending := .empty }
  let (outcome, pass) := idle.beginPass.run work.fresh.toList
    (work.fresh.union work.rewired).toList (idle.starts work)
  let ended := idle.endPass pass
  match outcome with
  | .ok () => (.ok pass.stats, ended.succeed pass.stats)
  | .error failure => (.error failure, ended.abort work failure)

end Hive

end RegionLayout
