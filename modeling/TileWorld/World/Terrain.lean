import TileWorld.World.BiomeMap

/-! Tile maps: every cell is painted by the painter of its biome, placed against the zone. -/
namespace TileWorld

namespace BiomeMap

/-- Number of positions that a map can hold. -/
def positions : Nat := 0x10000

/-- The positions that occur among values, ascending, each once. -/
def present (values : List Value) : List Nat :=
  let seen := values.foldl (fun seen v => seen.setIfInBounds (position v) true)
    (Array.replicate positions false)
  (List.range positions).filter fun k => seen.getD k false

end BiomeMap

/-- Brushes made ready, by biome position. -/
abbrev Painters := Array (Option BakedBrush)

namespace Generator
variable {α : Type} [Scalar α] [NoiseSource α]

/-- Make the painters of the biomes at some positions ready for an area, in order. -/
def painters? (g : Generator α) (area : Context) : List Nat → Painters → Except Fault Painters
  | [], painters => pure painters
  | k :: rest, painters =>
    match g.biomes[k]? with
    | none => .error .outOfRange
    | some b => do
      let baked ← b.painter.bake area area.toWindow
      g.painters? area rest (painters.setIfInBounds k (some baked))

/-- The names of the biomes at some positions. -/
def biomeNames (g : Generator α) (positions : List Nat) : List String :=
  positions.filterMap fun k => g.biomes[k]?.map (·.name)

/-- The stroke at a cell: that of the painter of its biome. -/
def paint? (painters : Painters) (map : Grid) (x y : Int) (_ : Value) : Except Fault Stroke := do
  match painters[← BiomeMap.get? map x y]? with
  | some (some painter) => painter x y
  | _ => .error .outOfRange

/-- Paint zones one after another. A zone of terrain size zero is left as it is. -/
def paintZones (g : Generator α) (map : Grid) : List (Zone α) → Grid → Logged Grid
  | [], terrain => pure terrain
  | z :: rest, terrain =>
    if Scalar.same z.terrainSize 0.0 then g.paintZones map rest terrain
    else do
      let area := Context.ofZone g.world z.rows
      let view ← map.view? area.toWindow
      let positions := BiomeMap.present (map.viewRows view).flatten
      let painters ← g.painters? area positions (Array.replicate g.biomes.size none)
      Logged.note (.paintingZone z.name (g.biomeNames positions))
      let terrain ← area.update? (paint? painters map) terrain
      g.paintZones map rest terrain

/-- Paint a map of the world's size onto a new grid. -/
def paintTerrain (g : Generator α) (map : Grid) (fill : Value) (cellType : CellType) :
    Logged Grid := do
  if (map.width : Int) ≠ g.world.width ∨ (map.height : Int) ≠ g.world.height then
    Logged.fail (.mapSize map.width map.height g.world.width g.world.height)
  else
    let terrain ← Grid.new? g.world.width g.world.height fill cellType false
    g.paintZones map g.zones terrain

/-- Paint a map, with a report at its end. -/
def terrain (g : Generator α) (map : Grid) (fill : Value) (cellType : CellType) : Logged Grid := do
  let terrain ← g.paintTerrain map fill cellType
  Logged.note .terrainPainted
  pure terrain

/-- A map and, if a fill is given, the tiles painted from it. -/
def generate [SquareRoot α] (g : Generator α) (fill : Option Value) :
    Logged (Grid × Option Grid) := do
  let map ← g.biomeMap
  match fill with
  | none => pure (map, none)
  | some fill => do
    let terrain ← g.terrain map fill .uint16
    pure (map, some terrain)

end Generator
end TileWorld
