/-! The double nearest to a quotient of integers, ties to the even significand. -/
namespace TileWorld.Quotient

/-- The exponent of the last place that the quotient `n / d` is rounded to. It leaves 53 digits,
or stops at the last place of all doubles. -/
def lastPlace (n d : Nat) : Int :=
  let guess : Int := (n.log2 : Int) - d.log2
  let reaches := if 0 ≤ guess then decide (d <<< guess.toNat ≤ n)
    else decide (d ≤ n <<< (-guess).toNat)
  max (if reaches then guess - 52 else guess - 53) (-1074)

/-- The integer nearest to `n / d`, a tie to the even one. -/
def roundEven (n d : Nat) : Nat :=
  let q := n / d
  let r := n % d
  if d < 2 * r || (2 * r == d && q % 2 == 1) then q + 1 else q

/-- Bits of the nonnegative double nearest to `n / d`, unless they pass the largest finite one. -/
def bits? (n d : Nat) : Option UInt64 :=
  if n = 0 then some 0 else
  let e := lastPlace n d
  let q := if 0 ≤ e then roundEven n (d <<< e.toNat) else roundEven (n <<< (-e).toNat) d
  let bits := ((e + 1074).toNat <<< 52) + q
  if bits < 0x7ff0000000000000 then some bits.toUInt64 else none

/-- The double nearest to `a / b` for nonzero `b`. Zero over a negative number is negative zero. -/
def nearest? (a b : Int) : Option Float :=
  (bits? a.natAbs b.natAbs).map fun w =>
    Float.ofBits (if (decide (a < 0) != decide (b < 0)) then w ||| 0x8000000000000000 else w)

end TileWorld.Quotient
