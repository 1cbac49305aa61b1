import TileWorld.Noise.Gradient
import TileWorld.Region.Position

/-! Noise over rectangles. A field is made at once for all of its cells; it is kept in single
precision, raw in about -1 to 1, and read in the unit interval. -/
namespace TileWorld

/-- One layer of noise, or four of rising frequency and falling weight. -/
inductive NoiseKind where
  | simplex
  | fbm
deriving DecidableEq, Repr

namespace NoiseKind

def name : NoiseKind → String
  | simplex => "simplex"
  | fbm => "fbm"

def all : List NoiseKind := [simplex, fbm]

def ofName? (s : String) : Except Fault NoiseKind :=
  match all.find? (·.name == s) with
  | some k => .ok k
  | none => .error .unknownWord

end NoiseKind

/-- Where raw noise comes from: a table for each seed, and a value at each point. -/
class NoiseSource (α : Type) where
  Table : Type
  table : Int → Table
  value? : Table → α → α → Except Fault α

instance : NoiseSource Float := ⟨Lattice, Lattice.ofSeed, Gradient.noise?⟩

/-- A rectangle of numbers, row by row. -/
structure Field (α : Type) where
  width : Nat
  height : Nat
  values : Array α
deriving Repr

namespace Field
variable {α : Type}

/-- The value at a position; negative positions count from the far end of their axis. -/
def get? (f : Field α) (column row : Int) : Except Fault α :=
  match position? f.height row, position? f.width column with
  | some j, some i => match f.values[j.val * f.width + i.val]? with
    | some v => .ok v
    | none => .error .outOfRange
  | _, _ => .error .outOfRange

def map {β : Type} (f : Field α) (g : α → β) : Field β := ⟨f.width, f.height, f.values.map g⟩

def toRows (f : Field α) : List (List α) :=
  (List.range f.height).map fun j =>
    (f.values.extract (j * f.width) (j * f.width + f.width)).toList

variable [Scalar α] [NoiseSource α]

/-- The points of an axis: `n` cells from `start`, one frequency apart. -/
def axis? (start : α) (n : Nat) (frequency : α) : Except Fault (List α) :=
  (List.range n).mapM fun (k : Nat) => do pure ((start + (← Scalar.ofInt? k)) * frequency)

/-- One layer of noise over the product of two axes, row by row. -/
def layer? (table : NoiseSource.Table α) (xs ys : List α) : Except Fault (List α) := do
  let rows ← ys.mapM fun y => xs.mapM fun x => NoiseSource.value? table x y
  pure rows.flatten

/-- Layers of fractal noise: frequency, which doubles, and weight, which halves. -/
def octaves : List (α × α) := [(1.0, 1.0), (2.0, 0.5), (4.0, 0.25), (8.0, 0.125)]

/-- Weighted sum of the layers over the sum of their weights. -/
def fractal? (table : NoiseSource.Table α) (xs ys : List α) : Except Fault (List α) := do
  let blank := (List.replicate (ys.length * xs.length) (0.0 : α))
  let total ← octaves.foldlM (fun total (o : α × α) => do
    let next ← layer? table (xs.map (· * o.1)) (ys.map (· * o.1))
    pure (List.zipWith (fun t v => t + o.2 * v) total next)) blank
  let weight := Scalar.sum (octaves.map fun (o : α × α) => o.2)
  pure (total.map (· / weight))

/-- Raw noise of a kind at `((x + i) · fx, (y + j) · fy)` for every cell `(i, j)`. -/
def noise? (kind : NoiseKind) (seed : Int) (x y : α) (width height : Int) (fx fy : α) :
    Except Fault (Field α) := do
  if width ≤ 0 ∨ height ≤ 0 then return ⟨width.toNat, height.toNat, #[]⟩
  let xs ← axis? x width.toNat fx
  let ys ← axis? y height.toNat fy
  let table := NoiseSource.table (α := α) seed
  let raw ← match kind with
    | .simplex => layer? table xs ys
    | .fbm => fractal? table xs ys
  pure ⟨width.toNat, height.toNat, (raw.map Scalar.store).toArray⟩

/-- Noise of a kind given by its name, which an empty rectangle does not need. -/
def noiseNamed? (kind : String) (seed : Int) (x y : α) (width height : Int) (fx fy : α) :
    Except Fault (Field α) :=
  match NoiseKind.ofName? kind with
  | .ok k => noise? k seed x y width height fx fy
  | .error _ =>
    if width ≤ 0 ∨ height ≤ 0 then .ok ⟨width.toNat, height.toNat, #[]⟩
    else .error (.unknownNoise kind)

end Field

/-- Raw noise in the unit interval: amplified twofold about its middle, and cut off at the ends.
`round` is applied after each step. -/
def unitRange {α : Type} [Scalar α] (round : α → α) (raw : α) : α :=
  let v := round (round (round (raw * 2.0) + 1.0) / 2.0)
  Scalar.store (if Scalar.lt v 0.0 then 0.0 else if Scalar.lt 1.0 v then 1.0 else v)

end TileWorld
