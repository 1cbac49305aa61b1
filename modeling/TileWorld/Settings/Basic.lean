import TileWorld.Brush.Basic
import TileWorld.Region.Context
import TileWorld.Region.Shape
import TileWorld.Settings.Order

/-! The description of a world: zones, climates and biomes, which refer to each other by name. -/
namespace TileWorld

/-- A surface biome above a cave biome, with a transition between them, as shares of an area. -/
structure ProducerSettings (α : Type) where
  surfaceSize : α
  surfaceTransition : α
  surfaceBiome : String
  caveBiome : String

/-- A horizontal band of the world. -/
structure ZoneSettings (α : Type) where
  heightWeight : α
  /-- Lowest on top. -/
  priority : α
  /-- Zero leaves the zone out of tile painting. -/
  terrainSize : α
  producer : ProducerSettings α

/-- A shaped region that hangs from the top of zones. -/
structure ClimateSettings (α : Type) where
  shape : Shape α
  widthWeight : α
  depth : α
  producer : ProducerSettings α
  zones : List String

/-- A biome, where it is placed and how its cells are painted. -/
structure BiomeSettings (α : Type) where
  label : Int × Int × Int
  ratio : α
  selection : Sampler α
  heightRange : Span α
  zones : List String
  climates : List String
  painter : Brush α

structure Settings (α : Type) where
  zones : List (String × ZoneSettings α)
  climates : List (String × ClimateSettings α)
  biomes : List (String × BiomeSettings α)
  world : World
  /-- Share of the width kept free of climates. -/
  spawnSize : α
  /-- Distance over which a biome fades out beyond its heights. -/
  heightTransition : α
  /-- Overrides the noise at the border of surface and cave. -/
  transition : Option (Sampler α)
  shuffleClimates : Bool

namespace Settings
variable {α : Type} [Scalar α]

/-- Zones by priority, climates and biomes by name. -/
def sorted (s : Settings α) : Settings α :=
  { s with
    zones := Order.ascending (fun a b => Scalar.lt b.2.priority a.2.priority) s.zones
    climates := Order.byName s.climates
    biomes := Order.byName s.biomes }

end Settings
end TileWorld
