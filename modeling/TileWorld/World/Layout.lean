import TileWorld.Number.Scalar

/-! Laying out a world: zones stacked from top to bottom, the climates of a zone side by side. -/
namespace TileWorld.Layout
variable {α : Type} [Scalar α]

/-- Rows for named weights that share a height, from row `top` on. Each takes the whole rows of its
share; the last takes what is left. -/
def stack? (height : Int) : Int → List (String × α) → Except Fault (List Interval)
  | _, [] => pure []
  | top, (name, weight) :: rest => do
    let rows ← if rest.isEmpty then pure (height - top) else Scalar.scale? height weight
    if rows ≤ 0 then throw (.settings (.emptyZone name))
    let others ← stack? height (top + rows) rest
    pure (⟨top, top + rows⟩ :: others)

/-- How the width of a world is shared among climates. -/
structure Spread (α : Type) where
  width : Int
  /-- Share of the width that stays free in the middle. -/
  gap : α
  /-- Sum of the weights. -/
  total : α
  /-- Number of climates left of the gap. -/
  left : Nat

/-- Columns for weights side by side, from `cursor` on, as a share of the width. The gap is passed
before climate number `left`; the last climate ends with the world. -/
def Spread.columns? (s : Spread α) : Nat → α → List α → Except Fault (List Interval)
  | _, _, [] => pure []
  | k, cursor, weight :: rest => do
    let start := if k = s.left then cursor + s.gap else cursor
    let next := start + (1.0 - s.gap) * weight / s.total
    let stop ← if rest.isEmpty then pure s.width else Scalar.scale? s.width next
    let first ← Scalar.scale? s.width start
    let others ← s.columns? (k + 1) next rest
    pure (⟨first, stop⟩ :: others)

/-- Columns for the climates of one zone, by their weights; half of them lie left of the gap. -/
def spread? (zone : String) (width : Int) (gap : α) (weights : List α) :
    Except Fault (List Interval) :=
  let total := Scalar.sum weights
  if Scalar.le total 0.0 then .error (.settings (.climateWeights zone))
  else Spread.columns? ⟨width, gap, total, weights.length / 2⟩ 0 0.0 weights

end TileWorld.Layout
