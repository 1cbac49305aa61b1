import TileWorld.Text.Glyph

/-! Reading numerals: integers with single underscores between digits, and decimals with an
optional point and exponent, infinities and non-numbers. Blanks around a numeral are ignored. -/
namespace TileWorld.Numeral

def isDigit (c : Char) : Bool := decide ('0' ≤ c) && decide (c ≤ '9')

/-- Longest integer that is read, in digits. -/
def maxDigits : Nat := 4300

/-- Drop underscores; each must stand between two digits. -/
def joinGroups? : List Char → Option (List Char)
  | [] => some []
  | ['_'] => none
  | '_' :: _ :: _ => none
  | [c] => some [c]
  | c :: '_' :: d :: rest =>
    if isDigit c && isDigit d then (joinGroups? (d :: rest)).map (c :: ·) else none
  | c :: rest => (joinGroups? rest).map (c :: ·)

/-- The value of a run of digits. -/
def value (digits : List Char) : Nat := digits.foldl (fun n c => n * 10 + (c.toNat - 48)) 0

/-- Sign and the rest. -/
def splitSign : List Char → Bool × List Char
  | '-' :: s => (true, s)
  | '+' :: s => (false, s)
  | s => (false, s)

/-- One or more digits, as a number. -/
def natural? (s : List Char) : Option Nat :=
  if s.isEmpty || !s.all isDigit then none else some (value s)

/-- An integer, blanks already dropped. -/
def integerBody? (s : List Char) : Option Int := do
  let (negative, body) := splitSign s
  let digits ← joinGroups? body
  if maxDigits < digits.length then none
  let n ← natural? digits
  some (if negative then -(n : Int) else n)

/-- An integer in ASCII digits. -/
def integer? (s : String) : Option Int := integerBody? (Glyph.strip s.toList)

/-- An integer in the digits of any script. -/
def integerOfAnyScript? (s : String) : Option Int :=
  integerBody? (Glyph.asciiDigits (Glyph.strip s.toList))

/-- The double nearest to `n · 10 ^ e`. Far exponents settle without computing the power. -/
def scaled (n : Nat) (e : Int) : Float :=
  let magnitude : Int := (toString n).length + e
  if n = 0 then 0.0
  else if 310 < magnitude then Float.ofScientific 1 false 400
  else if magnitude < -330 then 0.0
  else if e < 0 then Float.ofScientific n true (-e).toNat
  else Float.ofScientific n false e.toNat

/-- An exponent: the mark, an optional sign and digits; or nothing at all. -/
def exponent? : List Char → Option Int
  | [] => some 0
  | c :: s =>
    if c = 'e' ∨ c = 'E' then do
      let (negative, digits) := splitSign s
      let n ← natural? digits
      some (if negative then -(n : Int) else n)
    else none

/-- Digits, a point and digits, of which one side may be empty, and an exponent. -/
def finite? (s : List Char) : Option Float := do
  let whole := s.takeWhile isDigit
  let rest := s.dropWhile isDigit
  let (part, tail) := match rest with
    | '.' :: r => (r.takeWhile isDigit, r.dropWhile isDigit)
    | r => ([], r)
  if whole.isEmpty && part.isEmpty then none
  let e ← exponent? tail
  some (scaled (value (whole ++ part)) (e - part.length))

/-- A decimal, an infinity or a non-number, blanks already dropped. -/
def decimalBody? (s : List Char) : Option Float := do
  let body ← joinGroups? s
  let (negative, rest) := splitSign body
  let word := String.ofList (rest.map Char.toLower)
  let x ←
    if word = "inf" ∨ word = "infinity" then some (1.0 / 0.0)
    else if word = "nan" then some (0.0 / 0.0)
    else finite? rest
  some (if negative then -x else x)

/-- A decimal in ASCII digits. -/
def decimal? (s : String) : Option Float := decimalBody? (Glyph.strip s.toList)

/-- A decimal in the digits of any script. -/
def decimalOfAnyScript? (s : String) : Option Float :=
  decimalBody? (Glyph.asciiDigits (Glyph.strip s.toList))

end TileWorld.Numeral
