import TileWorld.Number.Scalar

/-! Outlines of climates. A point is given relative to the climate's rectangle, from 0 to 1 on each
axis, downward from the top of the zone. -/
namespace TileWorld

inductive Shape (α : Type) where
  /-- No definite outline. -/
  | unspecified
  /-- A circle of diameter one, stretched and raised. -/
  | oval (raise : α)
  /-- Widens downward from a share of the width at the top. -/
  | triangle (top : α)
  /-- Sides that lean toward opposite corners. -/
  | rectangle (sheer : α)
deriving Repr

namespace Shape
variable {α : Type} [Scalar α]

/-- Distance from the middle column, 1 at the sides. -/
def fromMiddle (x : α) : α :=
  let d := x - 0.5
  (if Scalar.lt d 0.0 then 0.0 - d else d) * 2.0

def inside? [SquareRoot α] : Shape α → α → α → Except Fault Bool
  | unspecified, _, _ => .error .unspecified
  | oval raise, x, y =>
    let dx := 0.5 - x
    let dy := (0.5 - raise) - y * (1.0 - raise)
    .ok (Scalar.lt (SquareRoot.sqrt (dx * dx + dy * dy)) 0.5)
  | triangle top, x, y => .ok (Scalar.lt (fromMiddle x + (1.0 - y) * (1.0 - top)) 1.0)
  | rectangle sheer, x, y =>
    let leaning := if Scalar.lt 0.5 x then y else 1.0 - y
    .ok (Scalar.lt (fromMiddle x) ((1.0 - sheer) + leaning * sheer))

def same : Shape α → Shape α → Bool
  | oval r, oval r' => Scalar.same r r'
  | triangle t, triangle t' => Scalar.same t t'
  | rectangle s, rectangle s' => Scalar.same s s'
  | _, _ => false

end Shape
end TileWorld
