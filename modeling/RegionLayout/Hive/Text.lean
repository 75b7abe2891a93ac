import RegionLayout.Decimal.Layout
import RegionLayout.Graph.Text
import RegionLayout.Hive.Basic

/-!
The text of a hive.
-/

namespace RegionLayout

namespace HiveConfig

/-- Extents are written by position from 0.0001 up to sixteen digits, and a whole one ends in a
decimal zero. -/
def extent : Decimal.Layout := ⟨-4, 15, ".0", "NaN", "inf"⟩

def inspect (config : HiveConfig) : String :=
  Record.full "HiveConfig" [("viewport_width", extent.write config.viewportWidth),
    ("viewport_height", extent.write config.viewportHeight),
    ("force_full_layout", Record.flag config.forceFullLayout)]

end HiveConfig

def LayoutStats.inspect (stats : LayoutStats) : String :=
  Record.full "LayoutStats" (stats.fields.map fun (name, count) => (name, toString count))

namespace Hive

def inspect (hive : Hive) : String :=
  Record.partly "Hive" [("root", hive.root.inspect), ("cells", toString hive.tree.size),
    ("coordinates", toString hive.registry.length),
    ("graph", hive.graph.inspect CoordinateId.inspect), ("config", hive.config.inspect),
    ("stats", hive.stats.inspect)]

end Hive

end RegionLayout
