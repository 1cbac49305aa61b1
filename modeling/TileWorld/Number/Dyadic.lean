/-! Finite doubles as exact multiples of powers of two. -/
namespace TileWorld

/-- The number `± mantissa · 2 ^ exponent`. -/
structure Dyadic where
  negative : Bool
  mantissa : Nat
  exponent : Int
deriving DecidableEq, Repr

namespace Dyadic

/-- The value of a finite double; the fields of the others are read the same way. -/
def ofFloat (x : Float) : Dyadic :=
  let bits := x.toBits
  let field := ((bits >>> 52) &&& 0x7ff).toNat
  let fraction := (bits &&& 0xfffffffffffff).toNat
  let negative := bits >>> 63 == 1
  if field = 0 then ⟨negative, fraction, -1074⟩
  else ⟨negative, fraction + 0x10000000000000, field - 1075⟩

/-- Apply the sign to a magnitude. -/
def signed (d : Dyadic) (n : Nat) : Int := if d.negative then -(n : Int) else n

/-- Integer part, toward zero. -/
def truncate (d : Dyadic) : Int :=
  d.signed (if 0 ≤ d.exponent then d.mantissa <<< d.exponent.toNat
    else d.mantissa >>> (-d.exponent).toNat)

/-- Whether the number is an integer. -/
def isInteger (d : Dyadic) : Bool :=
  decide (0 ≤ d.exponent) ||
    (d.mantissa >>> (-d.exponent).toNat) <<< (-d.exponent).toNat == d.mantissa

/-- Greatest integer below or equal. -/
def floor (d : Dyadic) : Int :=
  if d.negative && !d.isInteger then d.truncate - 1 else d.truncate

end Dyadic
end TileWorld
