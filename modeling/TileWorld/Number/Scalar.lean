import TileWorld.Fault
import TileWorld.Number.Decimal
import TileWorld.Number.Quotient
import TileWorld.Number.Single

/-! The arithmetic that worlds are described in. Every rule of the library is written over it, so
that the same rule is read on doubles, where it runs, and on exact numbers. -/
namespace TileWorld

class Scalar (α : Type) extends Add α, Sub α, Mul α, Div α, OfScientific α where
  lt : α → α → Bool
  le : α → α → Bool
  /-- The number nearest to an integer. -/
  ofInt? : Int → Except Fault α
  /-- The number nearest to a quotient of integers whose divisor is not zero. -/
  quotient? : Int → Int → Except Fault α
  /-- The integer part, toward zero. -/
  truncate? : α → Except Fault Int
  /-- The number as a noise buffer keeps it. -/
  store : α → α
  /-- The number as written in reports. -/
  text : α → String

namespace Scalar
variable {α : Type} [Scalar α]

/-- Equality as comparison sees it: both zeros are one, and a non-number equals nothing. -/
def same (x y : α) : Bool := le x y && le y x

/-- Division that refuses a zero divisor. -/
def divide? (x y : α) : Except Fault α :=
  if same y 0.0 then .error .divisionByZero else .ok (x / y)

/-- Left-to-right sum from zero. -/
def sum (xs : List α) : α := xs.foldl (· + ·) 0.0

/-- The integer part of a fraction of an integer. -/
def scale? (n : Int) (x : α) : Except Fault Int := do
  truncate? ((← ofInt? n) * x)

end Scalar

/-- Square roots, for the outlines that need them. -/
class SquareRoot (α : Type) where
  sqrt : α → α

instance : SquareRoot Float := ⟨Float.sqrt⟩

/-- Doubles, each operation rounded to nearest even; noise is kept in single precision. -/
instance : Scalar Float where
  lt x y := decide (x < y)
  le x y := decide (x ≤ y)
  ofInt? n :=
    let x := Float.ofInt n
    if x.isInf then .error .overflow else .ok x
  quotient? a b := match Quotient.nearest? a b with
    | some x => .ok x
    | none => .error .overflow
  truncate? x :=
    if x.isNaN then .error .notANumber
    else if x.isInf then .error .overflow
    else .ok (Dyadic.ofFloat x).truncate
  store x := Single.toFloat (Single.ofFloat x)
  text := Decimal.text

end TileWorld
