import TileWorld.World.Preset

/-! Configuration from environment variables. -/
namespace TileWorld

structure Config where
  logLevel : String
  logFormat : String
  /-- Size and seed of a world where none are given. -/
  defaultWorld : World
  maxWidth : Int
  maxHeight : Int
  outputDir : String
deriving DecidableEq, Repr

namespace Config
open Document Check

/-- What the variables of the program start with, in lower case. -/
def stem : List Char := "worldgen_".toList

/-- The setting that a variable names, in any case of letters. -/
def setting? (name : String) : Option String :=
  let name := name.toList.map Char.toLower
  if stem.isPrefixOf name then some (String.ofList (name.drop stem.length)) else none

def anyInteger : Document → Check Int := integer? {}

/-- The configuration under an environment, in which the last of equal variables counts. -/
def read (environment : List (String × String)) : Check Config :=
  let fields := environment.filterMap fun (name, value) =>
    (setting? name).map (·, Document.text value)
  let world := both (both (.map World.mk
    (optional fields "default_world_width" Preset.defaultWorld.width anyInteger))
    (optional fields "default_world_height" Preset.defaultWorld.height anyInteger))
    (optional fields "default_seed" Preset.defaultWorld.seed anyInteger)
  both (both (both (both (both (.map Config.mk
    (optional fields "log_level" "INFO" text?))
    (optional fields "log_format" "console" text?))
    world)
    (optional fields "max_world_width" 8192 anyInteger))
    (optional fields "max_world_height" 4096 anyInteger))
    (optional fields "output_dir" "output" text?)

/-- The configuration when no variable is set. -/
def default : Config := ⟨"INFO", "console", Preset.defaultWorld, 8192, 4096, "output"⟩

end Config
end TileWorld
