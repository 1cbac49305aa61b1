import TileWorld.Image.Palette
import TileWorld.Settings.Read

/-! A ready-made world: sky, surface and underworld, with a desert, ice and a jungle on the surface
and a handful of features. Painters give tile numbers, for which there is a palette. -/
namespace TileWorld.Preset

abbrev Rgb := Int × Int × Int

def components : Rgb → List Int
  | (r, g, b) => [r, g, b]

def air : Int := 0

/-- Biomes of plain ground: name, colour and tile. -/
def ground : List (String × Rgb × Int) := [
  ("sky", (155, 209, 255), 1),
  ("cave", (128, 128, 128), 2),
  ("surface", (151, 107, 75), 3),
  ("underworld", (68, 68, 76), 4),
  ("ice", (144, 195, 232), 5),
  ("ice_surface", (211, 236, 241), 6),
  ("desert", (212, 192, 100), 7),
  ("desert_surface", (255, 218, 56), 8),
  ("jungle", (98, 124, 55), 9),
  ("jungle_surface", (53, 80, 30), 10)]

def marble : Int := 11

def granite : Int := 12

def hive : Int := 13

def mushroom : Int := 14

def cloud : Int := 15

def marbleColour : Rgb := (168, 178, 204)

def graniteColour : Rgb := (50, 46, 104)

def hiveColour : Rgb := (248, 166, 2)

def mushroomColour : Rgb := (93, 127, 255)

def cloudColour : Rgb := (223, 255, 255)

/-- The colours of all tiles. -/
def palette : Palette :=
  [(air, [0, 0, 0])] ++ (ground.map fun (_, colour, tile) => (tile, components colour)) ++
    [(marble, marbleColour), (granite, graniteColour), (hive, hiveColour),
      (mushroom, mushroomColour), (cloud, cloudColour)].map fun (tile, colour) =>
        (tile, components colour)

section
variable {α : Type} [Scalar α]

def noise (scale offset : α) : Except Fault (Sampler α) := Sampler.noiseOf? scale .simplex offset

/-- Ground with a rough outline near the top of a zone, and air above it. -/
def silhouette? (tile : Int) : Except Fault (Brush α) := do
  let height ← Sampler.layered?
    [(10.0, ← noise 200.0 1.0), (10.0, ← noise 150.0 5.0), (1.0, ← noise 20.0 5.0)]
  Brush.selector?
    (.split .down ⟨0.0, 0.2⟩ (.graph .up height (.const 1.0) (.const 0.0)) (.const 0.0))
    [(0.5, .fill (.int tile)), (1.0, .fill (.int air))]

/-- Caves, which grow rarer toward the top. -/
def caves? : Except Fault (Brush α) := do
  let above ← Sampler.layered?
    [(5.0, ← noise 50.0 0.0), (1.5, ← noise 20.0 0.0), (1.0, .const 0.0)]
  let below ← Sampler.layered? [(5.0, ← noise 50.0 0.0), (1.5, ← noise 20.0 0.0)]
  Brush.weighted? (.fade .down above below) [(1.5, .ignore), (1.0, .fill (.int air))]

/-- The painter of plain ground. -/
def groundPainter? (tile : Int) : Except Fault (Brush α) := do
  pure (.layers [← silhouette? tile, ← caves?])

def producer (size transition : α) (surface cave : String) : ProducerSettings α :=
  ⟨size, transition, surface, cave⟩

def zones : List (String × ZoneSettings α) := [
  ("sky", ⟨1000.0, 0.0, 0.0, producer 0.0 0.0 "sky" "sky"⟩),
  ("surface", ⟨5000.0, 0.0, 0.1, producer 0.0 0.3 "surface" "cave"⟩),
  ("underworld", ⟨1000.0, 0.0, 1.0, producer 1.0 0.0 "underworld" "underworld"⟩)]

/-- A climate of the surface, with a ground biome of its own. -/
def climate (shape : Shape α) (width depth : α) (name : String) : String × ClimateSettings α :=
  (name, ⟨shape, width, depth, producer 0.0 0.3 (name ++ "_surface") name, ["surface"]⟩)

def climates : List (String × ClimateSettings α) := [
  climate (.oval 0.2) 150.0 0.3 "desert",
  climate (.triangle 0.6) 300.0 0.6 "ice",
  climate (.rectangle 0.2) 300.0 1.0 "jungle"]

/-- A biome of one tile that settles where its noise is low. -/
def feature? (name : String) (tile : Int) (colour : Rgb) (ratio : α) (range : Span α)
    (scale offset : α) (zones climates : List String) :
    Except Fault (String × BiomeSettings α) := do
  pure (name, ⟨colour, ratio, ← noise scale offset, range, zones, climates, .fill (.int tile)⟩)

/-- A biome of plain ground, which settles everywhere once it is placed. -/
def plain? : String × Rgb × Int → Except Fault (String × BiomeSettings α)
  | (name, colour, tile) => do
    pure (name, ⟨colour, 1.0, .const 0.0, Span.full, [], [], ← groundPainter? tile⟩)

def biomes? : Except Fault (List (String × BiomeSettings α)) := do
  let plain ← ground.mapM plain?
  pure (plain ++ [
    ← feature? "marble" marble marbleColour 0.1 ⟨0.6, 0.8⟩ 400.0 1.0 ["surface"] ["ice", "jungle"],
    ← feature? "granite" granite graniteColour 0.1 ⟨0.5, 0.8⟩ 350.0 2.0 ["surface"] ["ice"],
    ← feature? "hive" hive hiveColour 0.125 ⟨0.6, 0.8⟩ 400.0 3.0 [] ["jungle"],
    ← feature? "mushroom" mushroom mushroomColour 0.07 ⟨0.6, 0.8⟩ 800.0 4.0 ["surface"] [],
    ← feature? "sky_island" cloud cloudColour 0.5 Span.full 200.0 5.0 ["sky"] []])

/-- The settings of the ready-made world at a size and with a seed. -/
def settings? (world : World) : Except Fault (Settings α) := do
  pure {
    zones
    climates
    biomes := ← biomes?
    world
    spawnSize := 0.1
    heightTransition := 0.2
    transition := none
    shuffleClimates := false }

end

/-- Size and seed of the ready-made world where none are given. -/
def defaultWorld : World := ⟨1600, 450, 69⟩

/-- Size and seed as given, in that order, checked; what is not given takes the default. -/
def readWorld (given : List Document) : Check World :=
  let part (k : Nat) (default : Int) := given.getD k (.int default)
  World.read [("world_width", part 0 defaultWorld.width),
    ("world_height", part 1 defaultWorld.height), ("seed", part 2 defaultWorld.seed)]

end TileWorld.Preset
