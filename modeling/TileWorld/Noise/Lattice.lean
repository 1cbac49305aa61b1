/-! The shuffled table that a seed gives gradient noise. -/
namespace TileWorld

/-- A permutation of the numbers below 256. -/
structure Lattice where
  table : Array Nat
deriving DecidableEq, Repr

namespace Lattice

/-- One step of the 64-bit congruential stream that seeds the table. -/
def step (s : UInt64) : UInt64 := s * 6364136223846793005 + 1442695040888963407

/-- Draw the entries from the last to the first: each takes a number not yet drawn, and the last of
the remaining ones takes its place. The state is read as a signed word. -/
def draw : Nat → UInt64 → Array Nat → Array Nat → Array Nat
  | 0, _, _, table => table
  | i + 1, state, rest, table =>
    let s := step state
    let r := ((s.toInt64.toInt + 31) % ((i : Int) + 1)).toNat
    draw i s (rest.setIfInBounds r (rest.getD i 0)) (table.setIfInBounds i (rest.getD r 0))

/-- The table of a seed, of which the low 64 bits count. -/
def ofSeed (seed : Int) : Lattice :=
  let word := (seed % 0x10000000000000000).toNat.toUInt64
  ⟨draw 256 (step (step (step word))) (Array.range 256) (Array.replicate 256 0)⟩

/-- The number that a lattice point hashes to. -/
def hash (l : Lattice) (i j : Int) : Nat :=
  let first := l.table.getD (i % 256).toNat 0
  l.table.getD ((first + j) % 256).toNat 0

end Lattice
end TileWorld
