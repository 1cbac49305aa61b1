import TileWorld.Region.Context
import TileWorld.World.Entry

/-! Which of a producer's two biomes a cell gets, by its depth, and how willingly a biome settles at
a height. -/
namespace TileWorld
variable {α : Type} [Scalar α]

/-- The two parts of an area. -/
inductive Stratum where
  | surface
  | cave
deriving DecidableEq, Repr

/-- The part at a depth from 0 at the top to 1: surface down to `size`, cave from the end of the
transition on. Between them the cell is cave when its roughness exceeds the share of the transition
that lies below it. -/
@[inline]
def Stratum.at? (size transition depth : α) (roughness : Except Fault α) :
    Except Fault Stratum := do
  if Scalar.le (size + transition) depth then return .cave
  if Scalar.le size depth then
    let passed ← Scalar.divide? (depth - size) transition
    if Scalar.lt (1.0 - passed) (← roughness) then return .cave
  return .surface

namespace Producer

def biome (p : Producer α) : Stratum → Nat
  | .surface => p.surface
  | .cave => p.cave

/-- The biome of a cell of an area, given the roughness of every cell. -/
def biomeAt? (p : Producer α) (area : Window) (rough : Int → Int → Except Fault α) (x y : Int) :
    Except Fault Nat := do
  let depth ← area.rows.local? y
  p.biome <$> Stratum.at? p.surfaceSize p.surfaceTransition depth (rough x y)

end Producer

/-- One inside a range of heights, and fading to zero over a distance outside of it. -/
def heightBias? (height : α) (range : Span α) (fade : α) : Except Fault α :=
  if Scalar.lt height range.start then outside (range.start - height)
  else if Scalar.lt range.stop height then outside (height - range.stop)
  else .ok 1.0
where
  outside (distance : α) : Except Fault α := do
    let v := 1.0 - (← Scalar.divide? distance fade)
    pure (if Scalar.lt 0.0 v then v else 0.0)

end TileWorld
