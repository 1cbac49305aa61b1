import TileWorld.Brush.Value
import TileWorld.Region.Position

/-! Colours for numbered biomes and tiles. -/
namespace TileWorld

structure Colour where
  red : UInt8
  green : UInt8
  blue : UInt8
deriving DecidableEq, Repr

namespace Colour

/-- Drawn where a number has no colour of its own. -/
def missing : Colour := ⟨255, 0, 255⟩

def component? (n : Int) : Except Fault UInt8 :=
  if 0 ≤ n ∧ n < 256 then .ok n.toNat.toUInt8 else .error .overflow

/-- A colour of three components, or of one that stands for all three. -/
def ofComponents? (components : List Int) : Except Fault Colour := do
  match ← components.mapM component? with
  | [grey] => pure ⟨grey, grey, grey⟩
  | [r, g, b] => pure ⟨r, g, b⟩
  | _ => throw .colourCount

def hexDigit (n : Nat) : Char := Nat.digitChar (n % 16)

/-- Two hexadecimal digits for each component. -/
def hex (c : Colour) : List Char :=
  [c.red, c.green, c.blue].flatMap fun v => [hexDigit (v.toNat / 16), hexDigit v.toNat]

end Colour

/-- The components of the colours of numbers, each number once. -/
abbrev Palette := List (Int × List Int)

namespace Palette

/-- The palette of pairs: numbers in order of first appearance, each with its last colour. -/
def ofPairs (pairs : List (Int × List Int)) : Palette :=
  (pairs.map Prod.fst).eraseDups.filterMap fun n => pairs.reverse.find? (·.1 == n)

/-- One more than the greatest number; one when there is none. -/
def size : Palette → Int
  | [] => 1
  | (n, _) :: rest => rest.foldl (fun most (k, _) => max most k) n + 1

/-- Put colours into a table, one after another. -/
def store? : Palette → Array Colour → Except Fault (Array Colour)
  | [], table => pure table
  | (n, components) :: rest, table =>
    match position? table.size n with
    | none => .error .outOfRange
    | some i => do
      let c ← Colour.ofComponents? components
      store? rest (table.set i c)

/-- The colours of the numbers from zero up to the greatest. -/
def table? (p : Palette) : Except Fault (Array Colour) :=
  if p.size < 0 then .error .colourCount
  else store? p (Array.replicate p.size.toNat Colour.missing)

/-- The colour of a number in a table, which counts negative numbers from its end. -/
def colour? (table : Array Colour) (n : Int) : Except Fault Colour :=
  if table.size ≤ n then .ok Colour.missing
  else match position? table.size n with
    | some i => .ok table[i]
    | none => .error .outOfRange

/-- The least number of 64 bits. -/
def least : Int := -0x8000000000000000

/-- The number that a cell shows, in 64 bits: integers wrap, and what else has no integer part within
64 bits shows the least. -/
def number : Value → Int
  | .int n => n.bmod 0x10000000000000000
  | .float x => match (Scalar.truncate? x : Except Fault Int) with
    | .ok n => if least ≤ n ∧ n < -least then n else least
    | .error _ => least
  | _ => least

/-- Rows of cells in colours. -/
def image? (p : Palette) (rows : List (List Value)) : Except Fault (List (List Colour)) := do
  let table ← p.table?
  rows.mapM fun row => row.mapM fun v => colour? table (number v)

end Palette
end TileWorld
