import TileWorld.Number.Dyadic

/-! Shortest decimals: the fewest digits that read back as the same double, and of those the
nearest to it. Positional from 0.0001 up to 16 digits before the point, else with an exponent. -/
namespace TileWorld.Decimal

/-- The reals that round to a positive dyadic, as `(low, value, high)` in quarters of its last
place. Below a power of two doubles lie twice as dense. -/
def neighbourhood (m : Nat) (e : Int) : Nat × Nat × Nat :=
  if m = 0x10000000000000 ∧ e ≠ -1074 then (4 * m - 1, 4 * m, 4 * m + 2)
  else (4 * m - 2, 4 * m, 4 * m + 2)

/-- The multiple of `10 ^ k` that reads back as `m · 2 ^ e` and is nearest to it, as its factor;
a tie goes to the even factor. The ends of the neighbourhood read back when `m` is even. -/
def onGrid? (m : Nat) (e : Int) (k : Int) : Option Nat :=
  let (low, value, high) := neighbourhood m e
  let up := Nat.pow 2 (e - 2).toNat * Nat.pow 10 (-k).toNat
  let step := Nat.pow 2 (2 - e).toNat * Nat.pow 10 k.toNat
  let readsBack (c : Nat) : Bool :=
    if m % 2 = 0 then decide (low * up ≤ c * step) && decide (c * step ≤ high * up)
    else decide (low * up < c * step) && decide (c * step < high * up)
  let c := value * up / step
  let below := value * up - c * step
  let above := (c + 1) * step - value * up
  match readsBack c, readsBack (c + 1) with
  | false, false => none
  | true, false => some c
  | false, true => some (c + 1)
  | true, true => some (if below < above || (below == above && c % 2 == 0) then c else c + 1)

/-- The first of `fuel` ever finer grids with a number that reads back: factor and grid. -/
def search (m : Nat) (e : Int) : Nat → Int → Nat × Int
  | 0, k => (0, k)
  | fuel + 1, k => match onGrid? m e k with
    | some c => (c, k)
    | none => search m e fuel (k - 1)

/-- Digits and decimal exponent of the shortest decimal of a positive dyadic. The search starts
above the first digit and passes all of the at most 17 digits. -/
def shortest (m : Nat) (e : Int) : Nat × Int :=
  search m e 20 (((m.log2 : Int) + e + 1) * 30103 / 100000 + 1)

/-- Drop trailing zeros. -/
def trim (digits : List Char) : List Char := (digits.reverse.dropWhile (· == '0')).reverse

/-- Digits with the point after the first `point` of them. -/
def positional (digits : List Char) (point : Int) : List Char :=
  if point ≤ 0 then '0' :: '.' :: (List.replicate (-point).toNat '0' ++ digits)
  else if digits.length ≤ point.toNat then
    digits ++ List.replicate (point.toNat - digits.length) '0' ++ ['.', '0']
  else digits.take point.toNat ++ '.' :: digits.drop point.toNat

/-- Digits with the point after the first, and an exponent of two digits or more. -/
def scientific (digits : List Char) (point : Int) : List Char :=
  let e := point - 1
  let size := (toString e.natAbs).toList
  digits.take 1 ++ (if digits.length ≤ 1 then [] else '.' :: digits.drop 1) ++
    'e' :: (if e < 0 then '-' else '+') :: (if size.length < 2 then '0' :: size else size)

def text (x : Float) : String :=
  if x.isNaN then "nan" else
  let d := Dyadic.ofFloat x
  let sign := if d.negative then "-" else ""
  if x.isInf then sign ++ "inf"
  else if d.mantissa = 0 then sign ++ "0.0"
  else
    let (c, k) := shortest d.mantissa d.exponent
    let all := (toString c).toList
    let point : Int := all.length + k
    let digits := trim all
    sign ++ String.ofList
      (if -4 < point ∧ point ≤ 16 then positional digits point else scientific digits point)

end TileWorld.Decimal
