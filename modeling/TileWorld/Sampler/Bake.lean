import TileWorld.Sampler.Basic

/-! Baking: a sampler, placed in a context, made ready to be read at the cells of a window. All that
can be computed ahead of the cells is. -/
namespace TileWorld

/-- A sampler made ready: a number for each cell. -/
abbrev BakedSampler (α : Type) := Int → Int → Except Fault α

namespace Sampler
variable {α : Type} [Scalar α] [NoiseSource α]

/-- A coordinate relative to the start of an interval, in units of its extent. -/
def ramp? (i : Interval) : Except Fault (Int → Except Fault α) := do
  let extent ← Scalar.ofInt? i.extent
  pure fun n => do Scalar.divide? (← Scalar.ofInt? (n - i.start)) extent

/-- The row or column at the far end of a direction. -/
def edge (w : Window) : Direction → Int
  | .up => w.rows.stop - 1
  | .down => w.rows.start
  | .right => w.columns.stop - 1
  | .left => w.columns.start

/-- The cells at the far end of a direction, over the columns or rows of a pass. -/
def strip (ctx pass : Window) (d : Direction) : Window :=
  let e := edge ctx d
  if d.isVertical then ⟨pass.columns, ⟨e, e + 1⟩⟩ else ⟨⟨e, e + 1⟩, pass.rows⟩

/-- Cut off below zero and above one. -/
def clamp (x : α) : α := if Scalar.lt x 0.0 then 0.0 else if Scalar.lt 1.0 x then 1.0 else x

/-- The part of the context that a split hands to its children. Up and right select the far end of
their axis. -/
def splitContext? (ctx : Context) (d : Direction) (range : Span α) : Except Fault Context :=
  let span := match d with
    | .up | .right => range.flip
    | .down | .left => range
  if d.isVertical then ctx.extend? Span.full span else ctx.extend? span Span.full

/-- Noise over a pass, at world coordinates. -/
def noiseOver? (world : World) (pass : Window) (scaleX scaleY offset : α) (kind : NoiseKind) :
    Except Fault (Field α) := do
  let shiftX := offset * (← Scalar.ofInt? world.width)
  let x := (← Scalar.ofInt? pass.columns.start) + shiftX
  let shiftY := offset * (← Scalar.ofInt? world.height)
  let y := (← Scalar.ofInt? pass.rows.start) + shiftY
  let fx ← Scalar.divide? 1.0 scaleX
  let fy ← Scalar.divide? 1.0 scaleY
  let raw ← Field.noise? kind world.seed x y pass.width pass.height fx fy
  pure (raw.map (unitRange Scalar.store))

/-- Sum of weighted values, in order, from zero. -/
def weighted? : List (α × BakedSampler α) → Int → Int → α → Except Fault α
  | [], _, _, total => pure total
  | (weight, s) :: rest, x, y, total => do
    let v ← s x y
    weighted? rest x y (total + v * weight)

/-- Heights along a strip, one for each column or row of it. -/
def skyline? (s : BakedSampler α) (strip : Window) (d : Direction) : Except Fault (Array α) := do
  let heights ← (if d.isVertical then strip.columns.toList.mapM fun x => s x strip.rows.start
    else strip.rows.toList.mapM fun y => s strip.columns.start y)
  pure heights.toArray

/-- One sampler below a skyline, another from it on. -/
def parted? (ctx : Context) (pass : Window) (d : Direction) (heights : Array α)
    (less more : BakedSampler α) : BakedSampler α := fun x y => do
  let at' := if d.isVertical then x - pass.columns.start else y - pass.rows.start
  match position? heights.size at' with
  | none => .error .outOfRange
  | some k => if Scalar.lt (← ctx.toward? d x y) heights[k] then less x y else more x y

mutual

/-- Make a sampler ready for the cells of `pass`, placed against `ctx`. -/
def bake : Sampler α → Context → Window → Except Fault (BakedSampler α)
  | across, _, pass => do
    let f ← ramp? pass.columns
    pure fun x _ => f x
  | down, _, pass => do
    let f ← ramp? pass.rows
    pure fun _ y => f y
  | unspecified, _, _ => .error .unspecified
  | const v, _, _ => pure fun _ _ => .ok v
  | layered layers, ctx, pass => do
    let baked ← bakeLayers layers ctx pass
    pure fun x y => weighted? baked x y 0.0
  | zoom range inner, ctx, pass => do
    let inner ← bake inner ctx pass
    let length := range.length
    pure fun x y => do
      let v ← Scalar.divide? ((← inner x y) - range.start) length
      pure (clamp v)
  | fade d far near, ctx, pass => do
    let far ← bake far ctx pass
    let near ← bake near ctx pass
    pure fun x y => do
      let pos ← ctx.toward? d x y
      pure ((← far x y) * pos + (← near x y) * (1.0 - pos))
  | split d range inner outer, ctx, pass => do
    let sub ← splitContext? ctx d range
    let inner ← bake inner sub pass
    let outer ← bake outer sub pass
    pure fun x y => do
      let pos ← ctx.toward? d x y
      if range.contains (1.0 - pos) then inner x y else outer x y
  | graph d height less more, ctx, pass => do
    let edgeStrip := strip ctx.toWindow pass d
    let heights ← skyline? (← bake height ctx edgeStrip) edgeStrip d
    let less ← bake less ctx pass
    let more ← bake more ctx pass
    pure (parted? ctx pass d heights less more)
  | noise scaleX scaleY offset kind, ctx, pass => do
    let field ← noiseOver? ctx.world pass scaleX scaleY offset kind
    pure fun x y => field.get? (x - pass.columns.start) (y - pass.rows.start)

/-- Make the samplers of a weighted sum ready, in order. -/
def bakeLayers : List (α × Sampler α) → Context → Window → Except Fault (List (α × BakedSampler α))
  | [], _, _ => pure []
  | (weight, s) :: rest, ctx, pass => do
    let baked ← bake s ctx pass
    let others ← bakeLayers rest ctx pass
    pure ((weight, baked) :: others)

end

end Sampler
end TileWorld
