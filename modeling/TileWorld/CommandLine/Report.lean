import TileWorld.Text.JsonText
import TileWorld.World.Event

/-! Reports as lines: plain ones for a reader, or JSON. -/
namespace TileWorld

def Interval.json (i : Interval) : String :=
  JsonText.list [JsonText.integer i.start, JsonText.integer i.stop]

namespace Datum

def json : Datum → String
  | int n => JsonText.integer n
  | text s => JsonText.string s
  | texts ss => JsonText.list (ss.map JsonText.string)
  | intervals named => JsonText.record (named.map fun (name, i) => (name, i.json))

def plain : Datum → String
  | int n => toString n
  | text s => s
  | texts ss => ", ".intercalate ss
  | intervals named => ", ".intercalate (named.map fun (name, i) => name ++ " " ++ i.text)

end Datum

namespace Channel

def name : Channel → String
  | commandLine => "command line"
  | generator => "generator"
  | biomeMap => "biome map"
  | terrain => "terrain"
  | images => "images"

end Channel

namespace Event

/-- The text and the fields of a report, with JSON values. -/
def jsonFields (e : Event) : List (String × String) :=
  ("event", JsonText.string e.text) :: e.fields.map fun (name, d) => (name, d.json)

/-- A report as a JSON record, under a name for its channel. -/
def json (e : Event) (logger : String) : String :=
  JsonText.record (("level", JsonText.string e.level.name) :: ("logger", JsonText.string logger) ::
    e.jsonFields)

/-- A report as plain text. -/
def plain (e : Event) : String :=
  e.level.name ++ " [" ++ e.channel.name ++ "] " ++ e.text ++
    String.join (e.fields.map fun (name, d) => " " ++ name ++ "=" ++ d.plain)

end Event
end TileWorld
