import TileWorld.Brush.Value
import TileWorld.Sampler.Written

/-! Brushes: trees that decide what each cell is painted with. -/
namespace TileWorld

inductive Brush (α : Type) where
  /-- Paints a value. -/
  | fill (value : Value)
  /-- Leaves the cell as it is. -/
  | ignore
  /-- No definite rule; it cannot paint. -/
  | unspecified
  /-- Brushes in order, later ones over earlier ones. -/
  | layers (brushes : List (Brush α))
  /-- The first child whose threshold lies above the sampled value, else the last. -/
  | selector (sampler : Sampler α) (children : List (α × Brush α))

namespace Brush
variable {α : Type} [Scalar α]

/-- Whether thresholds, from a lower bound on, never decrease nor pass one by more than rounding
can bring. -/
def increasing : α → List α → Bool
  | _, [] => true
  | low, t :: rest =>
    if Scalar.lt t low || Scalar.lt (1.0 + 1e-6) t then false else increasing t rest

/-- A selection by thresholds. -/
def selector? (sampler : Sampler α) (children : List (α × Brush α)) : Except Fault (Brush α) :=
  if children.isEmpty then .error (.settings .noBrushes)
  else if increasing 0.0 (children.map Prod.fst) then .ok (.selector sampler children)
  else .error (.settings (.thresholds (children.map (Scalar.text ·.1))))

/-- Running totals of weights over their sum, from `reached` on. -/
def cumulative (total : α) : α → List (α × Brush α) → List (α × Brush α)
  | _, [] => []
  | reached, (w, b) :: rest =>
    let next := reached + w / total
    (next, b) :: cumulative total next rest

/-- A selection by weights, of which each child gets its share of the unit interval. -/
def weighted? (sampler : Sampler α) (children : List (α × Brush α)) : Except Fault (Brush α) :=
  let total := Scalar.sum (children.map Prod.fst)
  if children.isEmpty || Scalar.le total 0.0 then .error (.settings .brushWeights)
  else selector? sampler (cumulative total 0.0 children)

/-- A selection with equal shares. -/
def even? (sampler : Sampler α) (brushes : List (Brush α)) : Except Fault (Brush α) :=
  weighted? sampler (brushes.map ((1.0 : α), ·))

/-- Equality of descriptions. Layers, selections and the brush without a rule have an identity of
their own, and equal none. -/
def same : Brush α → Brush α → Bool
  | fill v, fill w => v.same w
  | ignore, ignore => true
  | _, _ => false

mutual

/-- The brush as written in reports. -/
def written : Brush α → String
  | fill v => "FillBrush(value=" ++ v.written ++ ")"
  | ignore => "IgnoreBrush()"
  | unspecified => "Brush()"
  | layers brushes => "LayeredBrush([" ++ ", ".intercalate (writtenBrushes brushes) ++ "])"
  | selector s children =>
    "SelectorBrush(" ++ s.written ++ ", [" ++ ", ".intercalate (writtenChildren children) ++ "])"

def writtenBrushes : List (Brush α) → List String
  | [] => []
  | b :: rest => b.written :: writtenBrushes rest

def writtenChildren : List (α × Brush α) → List String
  | [] => []
  | (t, b) :: rest => ("(" ++ Scalar.text t ++ ", " ++ b.written ++ ")") :: writtenChildren rest

end

end Brush
end TileWorld
