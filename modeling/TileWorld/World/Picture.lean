import TileWorld.Image.Palette
import TileWorld.World.Terrain

/-! Pictures of maps: biomes in their own colours, tiles in those of a palette. -/
namespace TileWorld

/-- Rows of colours. -/
abbrev Picture := List (List Colour)

namespace Generator
variable {α : Type}

/-- The colours of the biomes, by position. -/
def labels (g : Generator α) : Palette :=
  g.biomes.toList.zipIdx.map fun (b, k) => ((k : Int), [b.label.1, b.label.2.1, b.label.2.2])

/-- The picture of a biome map. -/
def picture? (g : Generator α) (map : Grid) : Except Fault Picture := g.labels.image? map.rows

end Generator

/-- The picture of a tile map. -/
def Palette.picture? (p : Palette) (terrain : Grid) : Except Fault Picture := p.image? terrain.rows

end TileWorld
