import TileWorld.Brush.Bake
import TileWorld.Grid.Sweep
import TileWorld.World.Generator
import TileWorld.World.Stratum

/-! Biome maps: grids of biome positions, laid on layer over layer from broad to narrow. A zone is
covered by its producer, then by its own biomes, then by its climates; a climate likewise, inside
its outline. Later layers cover earlier ones. -/
namespace TileWorld

/-- What a layer is made of. -/
inductive Ink (α : Type) where
  /-- A producer covers all of its area. -/
  | producer (p : Producer α)
  /-- The biome at a position covers the cells that select it. -/
  | biome (k : Nat)

/-- A rule that lays one biome, or none, on each cell. -/
abbrev Layer := Int → Int → Except Fault (Option Nat)

namespace Generator
variable {α : Type} [Scalar α] [NoiseSource α] [SquareRoot α]

/-- Whether a cell of an area lies within an outline, if there is one. -/
def within? (area : Window) (outline : Option (Shape α)) (x y : Int) : Except Fault Bool :=
  match outline with
  | none => .ok true
  | some shape => do shape.inside? (← area.columns.local? x) (← area.rows.local? y)

/-- A producer over an area. -/
def producerLayer? (g : Generator α) (area : Context) (outline : Option (Shape α))
    (p : Producer α) : Except Fault Layer := do
  let rough ← g.transition.bake area area.toWindow
  pure fun x y => do
    if ← within? area.toWindow outline x y then some <$> p.biomeAt? area.toWindow rough x y
    else pure none

/-- Whether a biome settles on a cell: its selection must not exceed its ratio, reduced outside of
its heights. -/
def selects? (b : Biome α) (worldHeight fade : α) (selection : BakedSampler α) (x y : Int) :
    Except Fault Bool := do
  let height ← Scalar.divide? (← Scalar.ofInt? y) worldHeight
  let bias ← heightBias? height b.heightRange fade
  pure (Scalar.le (← selection x y) (b.ratio * bias))

/-- The biome at a position over an area. -/
def biomeLayer? (g : Generator α) (area : Context) (outline : Option (Shape α)) (k : Nat) :
    Except Fault Layer :=
  match g.biomes[k]? with
  | none => .error .outOfRange
  | some b => do
    let worldHeight ← Scalar.ofInt? g.world.height
    let selection ← b.selection.bake area area.toWindow
    pure fun x y => do
      if ← within? area.toWindow outline x y then
        if ← selects? b worldHeight g.heightTransition selection x y then return some k
      return none

def layer? (g : Generator α) (area : Context) (outline : Option (Shape α)) :
    Ink α → Except Fault Layer
  | .producer p => g.producerLayer? area outline p
  | .biome k => g.biomeLayer? area outline k

/-- The stroke that a layer makes at a cell. -/
def stroke? (layer : Layer) (x y : Int) (_ : Value) : Except Fault Stroke := do
  match ← layer x y with
  | some k => pure (.paint (.int k))
  | none => pure .keep

/-- Lay inks over an area of a grid, one after another. -/
def lay? (g : Generator α) (area : Context) (outline : Option (Shape α)) :
    List (Ink α) → Grid → Except Fault Grid
  | [], grid => pure grid
  | ink :: rest, grid => do
    let layer ← g.layer? area outline ink
    let grid ← area.update? (stroke? layer) grid
    g.lay? area outline rest grid

/-- The inks of an area: its producer, then its biomes. -/
def inks (p : Producer α) (biomes : List Nat) : List (Ink α) := .producer p :: biomes.map .biome

/-- Lay climates over a zone, in order. One that covers no cell is reported and left out. -/
def layClimates (g : Generator α) (z : Zone α) : List (Nat × Interval) → Grid → Logged Grid
  | [], grid => pure grid
  | (k, columns) :: rest, grid =>
    match g.climates[k]? with
    | none => Logged.fail .outOfRange
    | some c => do
      let area ← Context.ofClimate? g.world z.rows columns c.depth
      if area.isEmpty then
        Logged.note (.emptyClimate c.name z.name)
        g.layClimates z rest grid
      else
        let grid ← g.lay? area (some c.shape) (inks c.producer c.biomes) grid
        g.layClimates z rest grid

def layZones (g : Generator α) : List (Zone α) → Grid → Logged Grid
  | [], grid => pure grid
  | z :: rest, grid => do
    let area := Context.ofZone g.world z.rows
    let grid ← g.lay? area none (inks z.producer z.biomes) grid
    let grid ← g.layClimates z z.climates grid
    g.layZones rest grid

/-- The map of a generator: biome positions, as a grid of the world's size. -/
def placeBiomes (g : Generator α) : Logged Grid := do
  let grid ← Grid.new? g.world.width g.world.height (.int 0) .uint16 false
  Logged.note (.placingBiomes g.world.width g.world.height g.zones.length)
  g.layZones g.zones grid

/-- The map of a generator, with a report at its end. -/
def biomeMap (g : Generator α) : Logged Grid := do
  let map ← g.placeBiomes
  Logged.note .biomesPlaced
  pure map

end Generator

namespace BiomeMap

/-- A value as a position; a map holds no others. -/
def position : Value → Nat
  | .int n => n.toNat
  | _ => 0

/-- The biome position at a cell. -/
def get? (map : Grid) (x y : Int) : Except Fault Nat := position <$> map.get? x y

/-- The biome position at the cell of the map nearest to a point. -/
def nearest? (map : Grid) (x y : Int) : Except Fault Nat :=
  match map.cell? (min (max x 0) (map.width - 1)) (min (max y 0) (map.height - 1)) with
  | some v => .ok (position v)
  | none => .error .outOfRange

end BiomeMap
end TileWorld
