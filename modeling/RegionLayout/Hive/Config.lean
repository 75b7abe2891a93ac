import RegionLayout.Datum

/-!
Settings of a hive, read from data whose fields may be missing, or from the environment.
-/

namespace RegionLayout

structure HiveConfig where
  viewportWidth : Float
  viewportHeight : Float
  /-- Whether every pass starts from every coordinate. -/
  forceFullLayout : Bool

namespace HiveConfig

def standard : HiveConfig := ⟨0.0, 0.0, false⟩

instance : Inhabited HiveConfig := ⟨standard⟩

def withViewport (config : HiveConfig) (width height : Float) : HiveConfig :=
  { config with viewportWidth := width, viewportHeight := height }

/-- Equality of settings; floats are compared as numbers. -/
def agrees (left right : HiveConfig) : Bool :=
  left.viewportWidth == right.viewportWidth && left.viewportHeight == right.viewportHeight &&
    left.forceFullLayout == right.forceFullLayout

def fieldNames : List String :=
  ["viewport_width", "viewport_height", "force_full_layout"]

def ofParts (width height full : Option Datum) : Option HiveConfig := do
  let width ← Datum.orDefault 0.0 Datum.float? width
  let height ← Datum.orDefault 0.0 Datum.float? height
  let full ← Datum.orDefault false Datum.flag? full
  return ⟨width, height, full⟩

/-- Reads settings by field name, or listed in the order of the fields. -/
def ofDatum? : Datum → Option HiveConfig
  | .record fields =>
    ofParts (Datum.field? fields "viewport_width") (Datum.field? fields "viewport_height")
      (Datum.field? fields "force_full_layout")
  | .list items => if items.length ≤ 3 then ofParts items[0]? items[1]? items[2]? else none
  | _ => none

/-! The environment may ask for full passes. -/

def isAffirmative (text : String) : Bool :=
  ["1", "true", "yes"].contains text.toLower

def ofEnvironment (setting : Option String) : HiveConfig :=
  { standard with forceFullLayout := setting.any isAffirmative }

end HiveConfig

end RegionLayout
