import TileWorld.CommandLine.Arguments
import TileWorld.World.Picture

/-! Runs: the ready-made world at a size and with a seed, drawn as pictures of its biomes and
tiles. -/
namespace TileWorld.CommandLine

/-- A letter in capitals. The dotless i and the long s have capitals among the plain letters. -/
def capital (c : Char) : Char :=
  if c = 'ı' then 'I' else if c = 'ſ' then 'S' else c.toUpper

/-- The least rank that a word for a level lets through. -/
def threshold? (word : String) : Except Fault Nat :=
  match String.ofList (word.toList.map capital) with
  | "CRITICAL" | "FATAL" => .ok 50
  | "ERROR" => .ok Level.error.rank
  | "WARN" | "WARNING" => .ok Level.warning.rank
  | "INFO" => .ok Level.info.rank
  | "DEBUG" => .ok Level.debug.rank
  | "NOTSET" => .ok 0
  | _ => .error .unknownWord

/-- How a run ends: its exit code, the pictures by file name, and all that it reports. -/
structure Outcome where
  code : Nat
  pictures : List (String × Picture)
  events : List Event

namespace Outcome

/-- The events of at least a rank. -/
def eventsFrom (o : Outcome) (rank : Nat) : List Event :=
  o.events.filter fun e => decide (rank ≤ e.level.rank)

end Outcome

def biomesFile : String := "biomes.png"

def terrainFile : String := "terrain.png"

variable {α : Type} [Scalar α] [NoiseSource α] [SquareRoot α]

/-- Draw the biomes of a generator and, unless they are not wanted, its tiles. -/
def draw (g : Generator α) (noTerrain : Bool) : Logged (List (String × Picture)) := do
  let map ← g.biomeMap
  let biomes ← g.picture? map
  Logged.note (.biomesSaved biomesFile)
  if noTerrain then pure [(biomesFile, biomes)]
  else do
    let terrain ← g.terrain map (.int Preset.air) .uint16
    let tiles ← Preset.palette.picture? terrain
    Logged.note (.terrainSaved terrainFile)
    pure [(biomesFile, biomes), (terrainFile, tiles)]

def withinLimits (c : Config) (a : Arguments) : Bool :=
  decide (0 < a.width ∧ a.width ≤ c.maxWidth ∧ 0 < a.height ∧ a.height ≤ c.maxHeight)

/-- Build a generator from settings and draw it. Settings that a generator refuses end the run with
code 1. -/
def drawSettings (s : Settings α) (noTerrain : Bool) : Except Fault Outcome :=
  let built := Generator.build s
  match built.outcome with
  | .error (.settings fault) =>
    .ok ⟨1, [], built.events ++ [.settingsRefused fault.message]⟩
  | .error e => .error e
  | .ok g => do
    let drawn := draw g noTerrain
    let pictures ← drawn.outcome
    pure ⟨0, pictures, built.events ++ drawn.events ++ [.worldDone]⟩

/-- The run that arguments ask for. A size beyond the limits ends it with code 2. -/
def run (c : Config) (a : Arguments) : Except Fault Outcome :=
  if !withinLimits c a then
    .ok ⟨2, [], [.sizeRefused a.width a.height c.maxWidth c.maxHeight]⟩
  else match Preset.readWorld [.int a.width, .int a.height, .int a.seed] with
    | .error issues => .ok ⟨1, [], [.settingsUnread issues]⟩
    | .ok world => do
      let settings : Settings Float ← Preset.settings? world
      drawSettings settings a.noTerrain

end TileWorld.CommandLine
