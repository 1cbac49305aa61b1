import TileWorld.Noise.Lattice
import TileWorld.Number.Scalar

/-! Two-dimensional simplex noise: a sum over nearby points of a skewed lattice, each of which adds
a slope of its own that fades out with distance. -/
namespace TileWorld.Gradient

/-- Skews the plane so that the triangles of the lattice become halves of squares. -/
def stretch : Float := -0.211324865405187

/-- Undoes the skew. -/
def squish : Float := 0.366025403784439

/-- Brings the sum into about -1 to 1. -/
def norm : Float := 47.0

/-- The slope that a hash selects. -/
def slope (hash : Nat) : Float × Float :=
  match hash / 2 % 8 with
  | 0 => (5.0, 2.0)
  | 1 => (2.0, 5.0)
  | 2 => (-5.0, 2.0)
  | 3 => (-2.0, 5.0)
  | 4 => (5.0, -2.0)
  | 5 => (2.0, -5.0)
  | 6 => (-5.0, -2.0)
  | _ => (-2.0, -5.0)

/-- Add what lattice point `(i, j)` contributes at offset `(dx, dy)` from it. -/
def add (l : Lattice) (i j : Int) (dx dy total : Float) : Float :=
  let a := 2.0 - dx * dx - dy * dy
  if a > 0.0 then
    let a := a * a
    let (gx, gy) := slope (l.hash i j)
    total + a * a * (gx * dx + gy * dy)
  else total

def floor? (x : Float) : Except Fault Int :=
  if x.isNaN then .error .notANumber
  else if x.isInf then .error .overflow
  else .ok (Dyadic.ofFloat x).floor

/-- The noise at a point. Two lattice points always count; of the others the nearest on the side of
the diagonal where the point lies, and one more beyond it. -/
def noise? (l : Lattice) (x y : Float) : Except Fault Float := do
  let skew := (x + y) * stretch
  let xs := x + skew
  let ys := y + skew
  let i ← floor? xs
  let j ← floor? ys
  let lift := (← Scalar.ofInt? (i + j)) * squish
  let xin := xs - Float.ofInt i
  let yin := ys - Float.ofInt j
  let s := xin + yin
  let dx := x - (Float.ofInt i + lift)
  let dy := y - (Float.ofInt j + lift)
  let v := add l (i + 1) j (dx - 1.0 - squish) (dy - 0.0 - squish) 0.0
  let v := add l i (j + 1) (dx - 0.0 - squish) (dy - 1.0 - squish) v
  let total :=
    if s ≤ 1.0 then
      let z := 1.0 - s
      let v := add l i j dx dy v
      if z > xin ∨ z > yin then
        if xin > yin then add l (i + 1) (j - 1) (dx - 1.0) (dy + 1.0) v
        else add l (i - 1) (j + 1) (dx + 1.0) (dy - 1.0) v
      else add l (i + 1) (j + 1) (dx - 1.0 - 2.0 * squish) (dy - 1.0 - 2.0 * squish) v
    else
      let z := 2.0 - s
      let v := add l (i + 1) (j + 1) (dx - 1.0 - 2.0 * squish) (dy - 1.0 - 2.0 * squish) v
      if z < xin ∨ z < yin then
        if xin > yin then add l (i + 2) j (dx - 2.0 - 2.0 * squish) (dy + 0.0 - 2.0 * squish) v
        else add l i (j + 2) (dx + 0.0 - 2.0 * squish) (dy - 2.0 - 2.0 * squish) v
      else add l i j dx dy v
  pure (total / norm)

end TileWorld.Gradient
