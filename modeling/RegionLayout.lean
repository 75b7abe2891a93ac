import RegionLayout.Hive.Layout
import RegionLayout.Hive.Text
import RegionLayout.Proofs.Graph.Chronicle
import RegionLayout.Proofs.Graph.Declaration
import RegionLayout.Proofs.Graph.Liveness
import RegionLayout.Proofs.Graph.Ordering
import RegionLayout.Proofs.Graph.Rounds
import RegionLayout.Proofs.Hive.Aborting
import RegionLayout.Proofs.Hive.Forced
import RegionLayout.Proofs.Hive.Overtaking
import RegionLayout.Proofs.Hive.Routing
import RegionLayout.Proofs.Hive.Spawning
import RegionLayout.Proofs.Hive.Synchrony
import RegionLayout.Proofs.Prerequisite.Roll
import RegionLayout.Proofs.Switchboard.Deliveries
import RegionLayout.Proofs.Tree.Deltas
import RegionLayout.Proofs.Tree.Moves
import RegionLayout.Proofs.Tree.Nesting
import RegionLayout.Proofs.Tree.Positions
import RegionLayout.Proofs.Tree.Refusals
import RegionLayout.Proofs.Tree.Tares
import RegionLayout.Proofs.Tree.Unions
import RegionLayout.Switchboard
import RegionLayout.Text.Quoted
import RegionLayout.Tree.Watch
import RegionLayout.Proofs.Tree.Coherence
import RegionLayout.Proofs.Tree.Peers
