import RegionLayout.Graph.Basic
import RegionLayout.Text.Record

/-!
The text of a graph: a map from every node, in slot order, to the list of its prerequisites.
-/

namespace RegionLayout.Graph

def inspect (describe : α → String) (graph : Graph α) : String :=
  Record.map (graph.occupied.map fun slot =>
    (describe slot.node, Record.list ((graph.nodesAt slot.prerequisites).map describe)))

end RegionLayout.Graph
