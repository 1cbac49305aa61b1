import TileWorld.Noise.Field
import TileWorld.Region.Context

/-! Samplers: trees that give every cell a number, in the unit interval for most of them. -/
namespace TileWorld

inductive Sampler (α : Type) where
  /-- How far the cell lies across the window sampled over. -/
  | across
  /-- How far the cell lies down the window sampled over. -/
  | down
  /-- No definite rule; it cannot be sampled. -/
  | unspecified
  | const (value : α)
  /-- Weighted sum. -/
  | layered (layers : List (α × Sampler α))
  /-- Stretches a range of the inner sampler over the unit interval and cuts off the rest. -/
  | zoom (range : Span α) (inner : Sampler α)
  /-- Blends from `near` at the start of a direction to `far` at its end. -/
  | fade (direction : Direction) (far near : Sampler α)
  /-- Takes `inner` where the distance left in a direction lies in the range, `outer` elsewhere.
  Both are placed in the part of the context that the range names. -/
  | split (direction : Direction) (range : Span α) (inner outer : Sampler α)
  /-- Takes `less` below a skyline of heights in a direction, `more` from it on. -/
  | graph (direction : Direction) (height less more : Sampler α)
  /-- Gradient noise at world coordinates, shifted by `offset` times the world's size. -/
  | noise (scaleX scaleY offset : α) (kind : NoiseKind)

namespace Sampler
variable {α : Type} [Scalar α]

/-- A weighted sum whose weights are divided by their total, which must be positive. -/
def layered? (layers : List (α × Sampler α)) : Except Fault (Sampler α) :=
  let total := Scalar.sum (layers.map Prod.fst)
  if layers.isEmpty || Scalar.le total 0.0 then .error (.settings .samplerWeights)
  else .ok (.layered (layers.map fun (w, s) => (w / total, s)))

/-- Samplers of equal weight. -/
def even? (samplers : List (Sampler α)) : Except Fault (Sampler α) :=
  layered? (samplers.map ((1.0 : α), ·))

def zoom? (range : Span α) (inner : Sampler α) : Except Fault (Sampler α) :=
  if Scalar.le range.stop range.start then
    .error (.settings (.zoomRange (Scalar.text range.start) (Scalar.text range.stop)))
  else .ok (.zoom range inner)

def noise? (scaleX scaleY offset : α) (kind : NoiseKind) : Except Fault (Sampler α) :=
  if Scalar.le scaleX 0.0 || Scalar.le scaleY 0.0 then
    .error (.settings (.noiseScale (Scalar.text scaleX) (Scalar.text scaleY)))
  else .ok (.noise scaleX scaleY offset kind)

/-- Noise of one scale on both axes. -/
def noiseOf? (scale : α) (kind : NoiseKind) (offset : α) : Except Fault (Sampler α) :=
  noise? scale scale offset kind

/-- Equality of descriptions. Weighted sums and the sampler without a rule have an identity of
their own, and equal none. -/
def same : Sampler α → Sampler α → Bool
  | across, across => true
  | down, down => true
  | const v, const w => Scalar.same v w
  | zoom r s, zoom r' s' => r.same r' && s.same s'
  | fade d f n, fade d' f' n' => d == d' && f.same f' && n.same n'
  | split d r i o, split d' r' i' o' => d == d' && r.same r' && i.same i' && o.same o'
  | graph d h l m, graph d' h' l' m' => d == d' && h.same h' && l.same l' && m.same m'
  | noise x y o k, noise x' y' o' k' =>
    Scalar.same x x' && Scalar.same y y' && Scalar.same o o' && k == k'
  | _, _ => false

end Sampler
end TileWorld
