import TileWorld.CommandLine.Report
import TileWorld.CommandLine.Run
import TileWorld.Image.Png

/-! The program: draws the ready-made world and writes it as pictures. -/
open TileWorld

def usage : String :=
  "usage: tileworld [-h] [--width N] [--height N] [--seed N] [--output-dir DIR] [--no-terrain]\n" ++
  "                 [--log-level LEVEL] [--log-format json|console]"

/-- The variables that configure the program. -/
def variableNames : List String := ["WORLDGEN_LOG_LEVEL", "WORLDGEN_LOG_FORMAT",
  "WORLDGEN_DEFAULT_WORLD_WIDTH", "WORLDGEN_DEFAULT_WORLD_HEIGHT", "WORLDGEN_DEFAULT_SEED",
  "WORLDGEN_MAX_WORLD_WIDTH", "WORLDGEN_MAX_WORLD_HEIGHT", "WORLDGEN_OUTPUT_DIR"]

def environment : IO (List (String × String)) :=
  variableNames.filterMapM fun name => do pure ((← IO.getEnv name).map (name, ·))

/-- Say why the program stops. -/
def stop (code : UInt32) (reason : String) : IO UInt32 := do
  IO.eprintln ("tileworld: error: " ++ reason)
  pure code

/-- Do a run: write its pictures and show its reports. -/
def perform (c : Config) (a : CommandLine.Arguments) : IO UInt32 := do
  match CommandLine.threshold? a.logLevel with
  | .error _ => stop 1 ("unknown log level: " ++ a.logLevel)
  | .ok rank => match CommandLine.run c a with
    | .error e => stop 1 (e.message?.getD "the world cannot be drawn")
    | .ok outcome => do
      for (file, picture) in outcome.pictures do
        IO.FS.createDirAll a.outputDir
        IO.FS.writeBinFile (a.outputDir ++ "/" ++ file) (Png.encode picture)
      for e in outcome.eventsFrom rank do
        IO.eprintln (if a.logFormat == "json" then e.json e.channel.name else e.plain)
      pure outcome.code.toUInt32

def main (args : List String) : IO UInt32 := do
  match Config.read (← environment) with
  | .error issues => stop 1 ("; ".intercalate (issues.map Issue.text))
  | .ok c => match CommandLine.Arguments.read? c args with
    | .ok a => perform c a
    | .error refusal => match refusal.message? with
      | some reason => stop 2 reason
      | none => do
        IO.println usage
        pure 0
