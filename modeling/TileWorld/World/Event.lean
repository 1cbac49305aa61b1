import TileWorld.Settings.Check

/-! What a run reports while it works, and computations that report. -/
namespace TileWorld

/-- How much a report matters. -/
inductive Level where
  | debug
  | info
  | warning
  | error
deriving DecidableEq, Repr

namespace Level

def name : Level → String
  | debug => "debug"
  | info => "info"
  | warning => "warning"
  | error => "error"

def rank : Level → Nat
  | debug => 10
  | info => 20
  | warning => 30
  | error => 40

end Level

/-- The part of the program that reports. -/
inductive Channel where
  | commandLine
  | generator
  | biomeMap
  | terrain
  | images
deriving DecidableEq, Repr

inductive Event where
  | zoneHeights (zones : List (String × Interval))
  | generatorReady (width height seed : Int) (zones climates biomes : Nat)
  | placingBiomes (width height : Int) (zones : Nat)
  | emptyClimate (climate zone : String)
  | biomesPlaced
  | paintingZone (zone : String) (biomes : List String)
  | terrainPainted
  | biomesSaved (file : String)
  | terrainSaved (file : String)
  | sizeRefused (width height maxWidth maxHeight : Int)
  | settingsRefused (reason : String)
  /-- Settings that cannot be read. -/
  | settingsUnread (issues : List Issue)
  | worldDone
deriving DecidableEq, Repr

/-- The value of a field of a report. -/
inductive Datum where
  | int (n : Int)
  | text (s : String)
  | texts (ss : List String)
  | intervals (named : List (String × Interval))
deriving Repr

namespace Event

def level : Event → Level
  | zoneHeights .. | paintingZone .. => .debug
  | emptyClimate .. => .warning
  | sizeRefused .. | settingsRefused .. | settingsUnread .. => .error
  | _ => .info

def channel : Event → Channel
  | zoneHeights .. | generatorReady .. | biomesPlaced | terrainPainted => .generator
  | placingBiomes .. | emptyClimate .. => .biomeMap
  | paintingZone .. => .terrain
  | biomesSaved .. | terrainSaved .. => .images
  | sizeRefused .. | settingsRefused .. | settingsUnread .. | worldDone => .commandLine

def text : Event → String
  | zoneHeights .. => "Computed zone heights"
  | generatorReady .. => "World generator ready"
  | placingBiomes .. => "Generating biome map"
  | emptyClimate .. => "Climate covers no tiles"
  | biomesPlaced => "Biome map generated"
  | paintingZone .. => "Painting zone"
  | terrainPainted => "Terrain map generated"
  | biomesSaved .. => "Saved biome map"
  | terrainSaved .. => "Saved terrain map"
  | sizeRefused .. => "World size out of bounds"
  | settingsRefused .. | settingsUnread .. => "Invalid generation settings"
  | worldDone => "World generated"

def fields : Event → List (String × Datum)
  | zoneHeights zones => [("zones", .intervals zones)]
  | generatorReady w h seed zones climates biomes =>
    [("width", .int w), ("height", .int h), ("seed", .int seed), ("zones", .int zones),
      ("climates", .int climates), ("biomes", .int biomes)]
  | placingBiomes w h zones => [("width", .int w), ("height", .int h), ("zones", .int zones)]
  | emptyClimate climate zone => [("climate", .text climate), ("zone", .text zone)]
  | paintingZone zone biomes => [("zone", .text zone), ("biomes", .texts biomes)]
  | biomesSaved file | terrainSaved file => [("path", .text file)]
  | sizeRefused w h maxW maxH =>
    [("width", .int w), ("height", .int h), ("max_width", .int maxW), ("max_height", .int maxH)]
  | settingsRefused reason => [("error", .text reason)]
  | settingsUnread issues => [("error", .text ("; ".intercalate (issues.map Issue.text)))]
  | biomesPlaced | terrainPainted | worldDone => []

end Event

/-- What a computation reported, and how it ended. -/
structure Logged (β : Type) where
  events : List Event
  outcome : Except Fault β

namespace Logged
variable {β γ : Type}

def note (e : Event) : Logged Unit := ⟨[e], .ok ()⟩

def ofExcept (r : Except Fault β) : Logged β := ⟨[], r⟩

def fail (e : Fault) : Logged β := ⟨[], .error e⟩

/-- Go on after a success; a failure ends the run with its reports kept. -/
def andThen (r : Logged β) (f : β → Logged γ) : Logged γ :=
  match r with
  | ⟨events, .ok v⟩ =>
    let next := f v
    ⟨events ++ next.events, next.outcome⟩
  | ⟨events, .error e⟩ => ⟨events, .error e⟩

instance : Monad Logged where
  pure v := ⟨[], .ok v⟩
  bind := andThen

instance : MonadLift (Except Fault) Logged := ⟨ofExcept⟩

@[simp] theorem outcome_pure (v : β) : (pure v : Logged β).outcome = .ok v := rfl

@[simp] theorem outcome_note (e : Event) : (note e).outcome = .ok () := rfl

@[simp] theorem outcome_ofExcept (r : Except Fault β) : (ofExcept r).outcome = r := rfl

@[simp] theorem outcome_bind (r : Logged β) (f : β → Logged γ) :
    (r >>= f).outcome = r.outcome >>= fun v => (f v).outcome := by
  change (andThen r f).outcome = _
  obtain ⟨events, _ | _⟩ := r <;> rfl

end Logged
end TileWorld
