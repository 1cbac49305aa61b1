import TileWorld.Random.Stream
import TileWorld.World.Entry
import TileWorld.World.Event
import TileWorld.World.Layout

/-! Generators: a roster of zones, climates and biomes that is laid out over a world. -/
namespace TileWorld

structure Generator (α : Type) extends Roster α where
  world : World
  /-- Share of the width kept free of climates. -/
  spawnSize : α
  /-- Distance over which a biome fades out beyond its heights. -/
  heightTransition : α
  /-- Roughens the border of surface and cave. -/
  transition : Sampler α
  shuffleClimates : Bool
  /-- Draws the orders of climates. -/
  stream : Stream

namespace Generator
variable {α : Type} [Scalar α]

/-- Roughens the border of surface and cave where the settings do not say how. -/
def defaultTransition : Sampler α := .noise 10.0 10.0 0.0 .simplex

/-- A generator of which nothing is laid out yet. -/
def ofRoster (s : Settings α) (roster : Roster α) : Generator α :=
  { toRoster := roster
    world := s.world
    spawnSize := s.spawnSize
    heightTransition := s.heightTransition
    transition := s.transition.getD defaultTransition
    shuffleClimates := s.shuffleClimates
    stream := Stream.ofSeed s.world.seed.toNat }

/-- Stack the zones from top to bottom by their weights. -/
def stack? (g : Generator α) : Except Fault (Generator α) := do
  let rows ← Layout.stack? g.world.height 0 (g.zones.map fun z => (z.name, z.heightWeight))
  pure { g with zones := List.zipWith (fun z rows => { z with rows }) g.zones rows }

/-- Stack the zones, and report their rows. -/
def stack (g : Generator α) : Logged (Generator α) := do
  let g ← g.stack?
  Logged.note (.zoneHeights (g.zones.map fun z => (z.name, z.rows)))
  pure g

/-- The width weight of the climate at a position. -/
def widthWeight (climates : Array (Climate α)) (k : Nat) : α :=
  match climates[k]? with
  | some c => c.widthWeight
  | none => 0.0

/-- Columns for climates in the order given. A zone without climates needs none. -/
def columns? (g : Generator α) (zone : String) (climates : List (Nat × Interval)) :
    Except Fault (List Interval) :=
  if climates.isEmpty then .ok []
  else Layout.spread? zone g.world.width g.spawnSize
    (climates.map fun (k, _) => widthWeight g.climates k)

/-- Lay out the climates of one zone after another, in drawn orders if they are shuffled. The first
failure ends the run: its zone keeps the drawn order and the old columns, later zones stay as they
are. -/
def spreadZones (g : Generator α) : List (Zone α) → Stream → List (Zone α) × Stream × Option Fault
  | [], stream => ([], stream, none)
  | z :: rest, stream =>
    let (climates, stream) :=
      if g.shuffleClimates then stream.permute z.climates else (z.climates, stream)
    match g.columns? z.name climates with
    | .error e => ({ z with climates } :: rest, stream, some e)
    | .ok columns =>
      let z := { z with climates := List.zip (climates.map Prod.fst) columns }
      let (rest, stream, fault) := g.spreadZones rest stream
      (z :: rest, stream, fault)

/-- Lay out the climates of every zone; with a failure, as far as it went. -/
def spread (g : Generator α) : Generator α × Option Fault :=
  let (zones, stream, fault) := g.spreadZones g.zones g.stream
  ({ g with zones, stream }, fault)

/-- Lay out the climates of every zone, or none. -/
def spread? (g : Generator α) : Except Fault (Generator α) :=
  match g.spread with
  | (g, none) => .ok g
  | (_, some e) => .error e

/-- Resolve and check settings, and lay them out over their world. -/
def build (s : Settings α) : Logged (Generator α) := do
  let s := s.sorted
  let roster ← Roster.resolve? s
  let g ← (ofRoster s roster).stack
  let g ← g.spread?
  Logged.note (.generatorReady g.world.width g.world.height g.world.seed g.zones.length
    g.climates.size g.biomes.size)
  pure g

/-- The position of the biome of a name. -/
def biomeId? (g : Generator α) (name : String) : Except Fault Nat :=
  Directory.resolve? "biome" (g.biomes.toList.map (·.name)) name

end Generator
end TileWorld
