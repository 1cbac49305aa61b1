/-! Doubles kept in single precision. -/
namespace TileWorld.Single
open Float.Model (UnpackedFloat Format)

/-- The single nearest to a double, ties to even. -/
def ofFloat (x : Float) : Float32 :=
  match x.toModel.unpack with
  | .finite sign mantissa exponent _ =>
    .ofModel (.pack (UnpackedFloat.round Format.binary32 sign mantissa exponent))
  | u => .ofModel (.pack u)

/-- A single as a double, which has room for all of its digits. -/
def toFloat (x : Float32) : Float :=
  match x.toModel.unpack with
  | .finite sign mantissa exponent _ =>
    .ofModel (.pack (UnpackedFloat.round Format.binary64 sign mantissa exponent))
  | u => .ofModel (.pack u)

end TileWorld.Single
