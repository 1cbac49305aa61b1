import TileWorld.Settings.Basic
import TileWorld.World.Directory

/-! Zones, climates and biomes with their references resolved to positions. -/
namespace TileWorld

/-- A surface biome above a cave biome, by position. -/
structure Producer (α : Type) where
  surfaceSize : α
  surfaceTransition : α
  surface : Nat
  cave : Nat

structure Zone (α : Type) where
  name : String
  /-- Share of the world's height. -/
  heightWeight : α
  terrainSize : α
  producer : Producer α
  /-- Climates and the columns each takes up, left to right. -/
  climates : List (Nat × Interval)
  biomes : List Nat
  rows : Interval

structure Climate (α : Type) where
  name : String
  shape : Shape α
  widthWeight : α
  depth : α
  producer : Producer α
  zones : List Nat
  biomes : List Nat

structure Biome (α : Type) where
  name : String
  label : Int × Int × Int
  ratio : α
  selection : Sampler α
  heightRange : Span α
  painter : Brush α
  zones : List Nat
  climates : List Nat

variable {α : Type} [Scalar α]

def Producer.resolve? (biomes : List String) (s : ProducerSettings α) :
    Except Fault (Producer α) := do
  let surface ← Directory.resolve? "biome" biomes s.surfaceBiome
  let cave ← Directory.resolve? "biome" biomes s.caveBiome
  pure ⟨s.surfaceSize, s.surfaceTransition, surface, cave⟩

/-- The positions of the entries that refer to `target`, as often as each does. -/
def referrers (references : List (List Nat)) (target : Nat) : List Nat :=
  references.zipIdx.flatMap fun (targets, k) => (targets.filter (· == target)).map fun _ => k

/-- Zones, climates and biomes of a world, all references resolved. -/
structure Roster (α : Type) where
  zones : List (Zone α)
  climates : Array (Climate α)
  biomes : Array (Biome α)

namespace Roster

def checkUnique (kind : String) (names : List String) : Except Fault Unit :=
  match Order.repeated names with
  | [] => .ok ()
  | names => .error (.settings (.duplicates kind names))

/-- Link settings already in order, whose names are unique. Zones share the height by their weights;
nothing is laid out yet. -/
def link? (s : Settings α) : Except Fault (Roster α) := do
  let zoneNames := s.zones.map Prod.fst
  let climateNames := s.climates.map Prod.fst
  let biomeNames := s.biomes.map Prod.fst
  if s.zones.isEmpty then throw (.settings .noZones)
  let total := Scalar.sum (s.zones.map (·.2.heightWeight))
  if Scalar.le total 0.0 then throw (.settings .zoneWeights)
  let zones ← s.zones.mapM fun (name, z) => do
    pure (name, z, ← Producer.resolve? biomeNames z.producer)
  let climates ← s.climates.mapM fun (name, c) => do
    let refs ← c.zones.mapM (Directory.resolve? "zone" zoneNames)
    pure (name, c, refs, ← Producer.resolve? biomeNames c.producer)
  let biomes ← s.biomes.mapM fun (name, b) => do
    let zoneRefs ← b.zones.mapM (Directory.resolve? "zone" zoneNames)
    let climateRefs ← b.climates.mapM (Directory.resolve? "climate" climateNames)
    pure (Biome.mk name b.label b.ratio b.selection b.heightRange b.painter zoneRefs climateRefs)
  let climateZones := climates.map fun (_, _, refs, _) => refs
  let biomeZones := biomes.map (·.zones)
  let biomeClimates := biomes.map (·.climates)
  pure {
    zones := zones.zipIdx.map fun ((name, z, producer), k) =>
      { name, heightWeight := z.heightWeight / total, terrainSize := z.terrainSize, producer
        climates := (referrers climateZones k).map (·, ⟨0, 0⟩)
        biomes := referrers biomeZones k
        rows := ⟨0, 0⟩ }
    climates := (climates.zipIdx.map fun ((name, c, refs, producer), k) =>
      { name, shape := c.shape, widthWeight := c.widthWeight, depth := c.depth, producer
        zones := refs, biomes := referrers biomeClimates k }).toArray
    biomes := biomes.toArray }

/-- Resolve settings already in order, none of whose names may be declared twice. -/
def resolve? (s : Settings α) : Except Fault (Roster α) := do
  checkUnique "zone" (s.zones.map Prod.fst)
  checkUnique "climate" (s.climates.map Prod.fst)
  checkUnique "biome" (s.biomes.map Prod.fst)
  link? s

end Roster
end TileWorld
