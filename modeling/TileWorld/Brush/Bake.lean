import TileWorld.Brush.Basic
import TileWorld.Sampler.Bake

/-! Brushes made ready for the cells of a window. -/
namespace TileWorld

/-- A brush made ready: a stroke for each cell. The stroke never depends on what the cell holds. -/
abbrev BakedBrush := Int → Int → Except Fault Stroke

namespace Brush
variable {α : Type} [Scalar α] [NoiseSource α]

/-- The strokes of brushes one after another. -/
def strokes? : List BakedBrush → Int → Int → Stroke → Except Fault Stroke
  | [], _, _, done => pure done
  | b :: rest, x, y, done => do strokes? rest x y (done.andThen (← b x y))

/-- The child for a sampled value: the first whose threshold lies above it, else the last. -/
def choose (v : α) : List (α × BakedBrush) → Option BakedBrush
  | [] => none
  | [(_, b)] => some b
  | (t, b) :: rest => if Scalar.lt v t then some b else choose v rest

/-- The stroke of the child that is chosen at each cell. -/
def chosen? (sample : BakedSampler α) (children : List (α × BakedBrush)) (x y : Int) :
    Except Fault Stroke := do
  match choose (← sample x y) children with
  | some b => b x y
  | none => .ok .keep

mutual

/-- Make a brush ready for the cells of `pass`, placed against `ctx`. -/
def bake : Brush α → Context → Window → Except Fault BakedBrush
  | fill v, _, _ => pure fun _ _ => .ok (.paint v)
  | ignore, _, _ => pure fun _ _ => .ok .keep
  | unspecified, _, _ => .error .unspecified
  | layers brushes, ctx, pass => do
    let baked ← bakeAll brushes ctx pass
    pure fun x y => strokes? baked x y .keep
  | selector s children, ctx, pass => do
    let sample ← s.bake ctx pass
    let baked ← bakeChildren children ctx pass
    pure (chosen? sample baked)

def bakeAll : List (Brush α) → Context → Window → Except Fault (List BakedBrush)
  | [], _, _ => pure []
  | b :: rest, ctx, pass => do
    let baked ← bake b ctx pass
    let others ← bakeAll rest ctx pass
    pure (baked :: others)

def bakeChildren : List (α × Brush α) → Context → Window → Except Fault (List (α × BakedBrush))
  | [], _, _ => pure []
  | (t, b) :: rest, ctx, pass => do
    let baked ← bake b ctx pass
    let others ← bakeChildren rest ctx pass
    pure ((t, baked) :: others)

end

end Brush
end TileWorld
