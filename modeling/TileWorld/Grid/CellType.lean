import TileWorld.Brush.Value
import TileWorld.Number.Numeral

/-! What the cells of a grid hold, and how values are converted on the way in. -/
namespace TileWorld

inductive CellType where
  | uint8
  | int8
  | uint16
  | int16
  | uint32
  | int32
  | uint64
  | int64
  | float32
  | float64
deriving DecidableEq, Repr

namespace CellType

def name : CellType → String
  | uint8 => "uint8"
  | int8 => "int8"
  | uint16 => "uint16"
  | int16 => "int16"
  | uint32 => "uint32"
  | int32 => "int32"
  | uint64 => "uint64"
  | int64 => "int64"
  | float32 => "float32"
  | float64 => "float64"

def all : List CellType :=
  [uint8, int8, uint16, int16, uint32, int32, uint64, int64, float32, float64]

def ofName? (s : String) : Option CellType := all.find? (·.name == s)

/-- Smallest integer held and number of integers held, for the integer types. -/
def integers? : CellType → Option (Int × Int)
  | uint8 => some (0, 0x100)
  | int8 => some (-0x80, 0x100)
  | uint16 => some (0, 0x10000)
  | int16 => some (-0x8000, 0x10000)
  | uint32 => some (0, 0x100000000)
  | int32 => some (-0x80000000, 0x100000000)
  | uint64 => some (0, 0x10000000000000000)
  | int64 => some (-0x8000000000000000, 0x10000000000000000)
  | float32 | float64 => none

/-- The integer itself, which must fit. -/
def fit? (low size n : Int) : Except Fault Int :=
  if low ≤ n ∧ n < low + size then .ok n else .error .overflow

/-- An integer that passes through a word of 64 bits, reduced to the type by whole turns. The word
is signed; unsigned types of 32 bits and more take unsigned words too. -/
def wrap? (low size n : Int) : Except Fault Int := do
  let words : Int := if low = 0 ∧ 0x100000000 ≤ size then 0x18000000000000000
    else 0x10000000000000000
  let n ← fit? (-0x8000000000000000) words n
  pure ((n - low) % size + low)

/-- A value as an integer of a type. Integers must fit; other numbers are truncated and wrap. -/
def toInteger? (low size : Int) : Value → Except Fault Int
  | .none => .error .noValue
  | .int n => fit? low size n
  | .float x => do wrap? low size (← Scalar.truncate? x)
  | .text s => match Numeral.integerOfAnyScript? s with
    | some n => wrap? low size n
    | none => .error .notNumeral

/-- A value as a double; nothing becomes a non-number. -/
def toDouble? : Value → Except Fault Float
  | .none => .ok (0.0 / 0.0)
  | .int n => Scalar.ofInt? n
  | .float x => .ok x
  | .text s => match Numeral.decimalOfAnyScript? s with
    | some x => .ok x
    | none => .error .notNumeral

/-- The value that a cell holds after a value is stored in it. -/
def cast? (t : CellType) (v : Value) : Except Fault Value :=
  match t.integers? with
  | some (low, size) => do pure (.int (← toInteger? low size v))
  | none => do
    let x ← toDouble? v
    pure (.float (if t = float32 then Scalar.store x else x))

theorem cast?_int {t : CellType} {low size n : Int} (ht : t.integers? = some (low, size)) :
    t.cast? (.int n) =
      if low ≤ n ∧ n < low + size then .ok (.int n) else .error .overflow := by
  simp only [cast?, ht, toInteger?, fit?]
  split
  · rfl
  · rfl

/-- Whether a cell of the type equals a value. Next to doubles, integers are compared as doubles; in
cells of single precision the value is first brought to that precision. -/
def equals (t : CellType) (cell v : Value) : Bool :=
  match cell, v with
  | .int m, .int n => m == n
  | .int _, .float _ | .float _, .int _ | .float _, .float _ =>
    match toDouble? cell, toDouble? v with
    | .ok x, .ok y => x == if t = float32 then Scalar.store y else y
    | _, _ => false
  | _, _ => false

end CellType
end TileWorld
