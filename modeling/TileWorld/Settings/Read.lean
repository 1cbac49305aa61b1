import TileWorld.Settings.Check

/-! Reading settings from documents: fields, bounds and defaults. -/
namespace TileWorld
open Document Check

private def share : Bounds Float := { most := some 1.0, least := some 0.0 }

private def weight : Bounds Float := { least := some 0.0 }

namespace ProducerSettings

def read (d : Document) : Check (ProducerSettings Float) := do
  let fields ← d.record?
  both (both (both (.map ProducerSettings.mk
    (required fields "surface_size" (double? share)))
    (required fields "surface_transition" (double? share)))
    (required fields "surface_biome" text?))
    (required fields "cave_biome" text?)

end ProducerSettings

namespace ZoneSettings

def read (d : Document) : Check (ZoneSettings Float) := do
  let fields ← d.record?
  both (both (both (.map ZoneSettings.mk
    (required fields "height_weight" (double? weight)))
    (optional fields "priority" 0.0 (double? {})))
    (optional fields "terrain_size" 1.0 (double? share)))
    (required fields "biome_producer" ProducerSettings.read)

end ZoneSettings

namespace ClimateSettings

def read (d : Document) : Check (ClimateSettings Float) := do
  let fields ← d.record?
  both (both (both (both (.map ClimateSettings.mk
    (required fields "shape" shape?))
    (required fields "width_weight" (double? weight)))
    (required fields "depth" (double? share)))
    (required fields "biome_producer" ProducerSettings.read))
    (optional fields "zones" [] (list? text?))

end ClimateSettings

/-- A colour of three integers. -/
def readLabel : Document → Check (Int × Int × Int)
  | .list items =>
    if 3 < items.length then fail .tooLong else
    both (both (.map (fun r g b => (r, g, b))
      (part items 0 (integer? {})))
      (part items 1 (integer? {})))
      (part items 2 (integer? {}))
  | _ => fail .notRow

/-- A span given by its two ends, in order or by name. -/
def readSpan : Document → Check (Span Float)
  | .list items =>
    if 2 < items.length then fail .tooLong else
    both (.map Span.mk (part items 0 (double? {}))) (part items 1 (double? {}))
  | .record fields =>
    let extra := (fields.map Prod.fst).filter fun name => !(["start", "end"].contains name)
    let span := both (.map Span.mk
      (required fields "start" (double? {})))
      (required fields "end" (double? {}))
    if extra.isEmpty then span
    else both (.map (fun s _ => s) span)
      (.error (extra.map fun name => ⟨[name], .unexpected⟩) : Check Unit)
  | _ => fail .notSpan

namespace BiomeSettings

def read (d : Document) : Check (BiomeSettings Float) := do
  let fields ← d.record?
  both (both (both (both (both (both (.map BiomeSettings.mk
    (optional fields "label" (255, 0, 255) readLabel))
    (optional fields "biome_ratio" 1.0 (double? weight)))
    (optional fields "selection_sampler" (.const 0.0) sampler?))
    (optional fields "height_range" Span.full readSpan))
    (optional fields "zones" [] (list? text?)))
    (optional fields "climates" [] (list? text?)))
    (optional fields "painter" .ignore brush?)

end BiomeSettings

/-- A name and what it is declared as. -/
def readEntry {β : Type} (read : Document → Check β) : Document → Check (String × β)
  | .list items =>
    if 2 < items.length then fail .tooLong else
    both (.map Prod.mk (part items 0 text?)) (part items 1 read)
  | _ => fail .notRow

/-- Size and seed of a world. -/
def World.read (fields : List (String × Document)) : Check World :=
  both (both (.map World.mk
    (required fields "world_width" (integer? { above := some 0 })))
    (required fields "world_height" (integer? { above := some 0 })))
    (optional fields "seed" 0 (integer? { least := some 0 }))

namespace Settings

def read (d : Document) : Check (Settings Float) := do
  let fields ← d.record?
  both (both (both (both (both (both (both (.map Settings.mk
    (required fields "zones" (list? (readEntry ZoneSettings.read))))
    (optional fields "climates" [] (list? (readEntry ClimateSettings.read))))
    (required fields "biomes" (list? (readEntry BiomeSettings.read))))
    (World.read fields))
    (optional fields "spawn_size" 0.0 (double? { below := some 1.0, least := some 0.0 })))
    (optional fields "biome_height_transition" 0.2 (double? { above := some 0.0 })))
    (optional fields "transition_sampler" none fun
      | .null => .ok none
      | d => .map some (sampler? d)))
    (optional fields "shuffle_climates" false bool?)

end Settings
end TileWorld
