import TileWorld.Region.Interval

/-! What can go wrong, as causes, and the text that reports each of them. -/
namespace TileWorld

/-- Why a description of a world, or of a part of one, is refused. Numbers stand as written. -/
inductive SettingsFault where
  /-- Weighted samplers whose weights have no positive total. -/
  | samplerWeights
  /-- A zoom range that does not increase. -/
  | zoomRange (start stop : String)
  /-- A noise scale that is zero or negative. -/
  | noiseScale (x y : String)
  /-- A selection among no brushes. -/
  | noBrushes
  /-- Thresholds that decrease, or leave the unit interval. -/
  | thresholds (given : List String)
  /-- Weighted brushes whose weights have no positive total. -/
  | brushWeights
  /-- Names declared more than once, in order. -/
  | duplicates (kind : String) (names : List String)
  | noZones
  /-- Zones whose height weights have no positive total. -/
  | zoneWeights
  | emptyZone (zone : String)
  /-- Climates of one zone whose width weights have no positive total. -/
  | climateWeights (zone : String)
  /-- A name that is used but not declared. -/
  | unknownReference (kind name : String)
deriving DecidableEq, Repr

/-- Why an operation fails. -/
inductive Fault where
  | divisionByZero
  /-- A number beyond the range of the type it is meant for. -/
  | overflow
  /-- A value that is not a number has no integer part. -/
  | notANumber
  /-- A position outside a buffer or list. -/
  | outOfRange
  /-- A node that stands for no definite rule. -/
  | unspecified
  /-- A word that names none of the choices. -/
  | unknownWord
  | unknownNoise (kind : String)
  /-- Text that is not a numeral, where a number is stored. -/
  | notNumeral
  /-- Nothing, where a number is stored. -/
  | noValue
  /-- Nested rows of unequal lengths. -/
  | ragged
  /-- A colour of neither one nor three components, or a table of a negative number of colours. -/
  | colourCount
  /-- Nested rows that are not two deep. -/
  | notPlanar (shape : List Nat)
  | negativeSize (width height : Int)
  | outsideGrid (x y : Int) (width height : Nat)
  | outsideView (x y : Int) (view : Window)
  | viewTooLarge (view : Window) (width height : Nat)
  | mapSize (width height : Nat) (worldWidth worldHeight : Int)
  | settings (fault : SettingsFault)
deriving DecidableEq, Repr

namespace SettingsFault

def message : SettingsFault → String
  | samplerWeights => "LayeredSampler needs a positive total weight"
  | zoomRange a b => s!"Zoom range must be increasing, got ({a}, {b})"
  | noiseScale x y => s!"Noise scale must be positive, got {x}x{y}"
  | noBrushes => "SelectorBrush needs at least one child"
  | thresholds ts =>
    "Selector thresholds must increase within [0, 1], got [" ++ ", ".intercalate ts ++ "]"
  | brushWeights => "SelectorBrush needs a positive total weight"
  | duplicates kind names => s!"Duplicate {kind} names: " ++ ", ".intercalate names
  | noZones => "At least one zone is required"
  | zoneWeights => "Zone height weights must have a positive total"
  | emptyZone zone => "Zone '" ++ zone ++ "' has zero height"
  | climateWeights zone => "Climates of zone '" ++ zone ++ "' have no width"
  | unknownReference kind name => s!"unknown reference: {name} ({kind})"

end SettingsFault

namespace Fault

/-- The extents of nested rows, outermost first: `()`, `(4,)`, `(2, 3)`. -/
def shapeText : List Nat → String
  | [n] => s!"({n},)"
  | ns => "(" ++ ", ".intercalate (ns.map toString) ++ ")"

/-- The report of a fault; faults of plain arithmetic and look-up have none. -/
def message? : Fault → Option String
  | unknownNoise kind => some s!"Unsupported noise kind: {kind}"
  | notPlanar shape => some ("Expected a 2-D array, got shape " ++ shapeText shape)
  | negativeSize w h => some s!"Grid size must be non-negative, got {w}x{h}"
  | outsideGrid x y w h => some s!"{x} < {w} | {y} < {h}"
  | outsideView x y view => some (s!"({x}, {y}) outside view " ++ view.text)
  | viewTooLarge view w h => some ("View " ++ view.text ++ s!" exceeds grid {w}x{h}")
  | mapSize w h ww wh => some s!"Biome map is {w}x{h}, world is {ww}x{wh}"
  | settings f => some f.message
  | divisionByZero | overflow | notANumber | outOfRange | unspecified | unknownWord | notNumeral
  | noValue | ragged | colourCount => none

end Fault
end TileWorld
