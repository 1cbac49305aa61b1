/-! Seeding: any natural number is stirred into a pool of four words, from which the starting state
of a stream is drawn. -/
namespace TileWorld.Seeding

/-- The 32-bit words of a number, least significant first; zero has one. -/
def words (n : Nat) : List UInt32 :=
  if n < 0x100000000 then [n.toUInt32] else n.toUInt32 :: words (n / 0x100000000)
termination_by n
decreasing_by exact Nat.div_lt_self (by omega) (by decide)

/-- Fold a word in with a constant that moves on with every use. -/
def stir (constant factor value : UInt32) : UInt32 × UInt32 :=
  let next := constant * factor
  let v := (value ^^^ constant) * next
  (next, v ^^^ (v >>> 16))

/-- The pool and the constant it was last stirred with. -/
structure Pool where
  constant : UInt32
  words : Vector UInt32 4
deriving Repr

namespace Pool

def hashed (p : Pool) (value : UInt32) : Pool × UInt32 :=
  let (constant, v) := stir p.constant 0x931e8875 value
  ({ p with constant }, v)

def mix (x y : UInt32) : UInt32 :=
  let r := 0xca01f9dd * x - 0x4973f715 * y
  r ^^^ (r >>> 16)

/-- Mix a value into one word of the pool. -/
def absorb (p : Pool) (value : UInt32) (d : Fin 4) : Pool :=
  let (p, v) := p.hashed value
  { p with words := p.words.set d (mix p.words[d] v) }

/-- Put a value in place of one word of the pool. -/
def load (p : Pool) (value : UInt32) (d : Fin 4) : Pool :=
  let (p, v) := p.hashed value
  { p with words := p.words.set d v }

def places : List (Fin 4) := [0, 1, 2, 3]

/-- Load the first four words, mix every word of the pool into every other, then absorb the rest. -/
def ofEntropy (entropy : List UInt32) : Pool :=
  let p : Pool := ⟨0x43b0d7e5, Vector.replicate 4 0⟩
  let p := places.foldl (fun p d => p.load (entropy.getD d.val 0) d) p
  let p := places.foldl (fun p s =>
    (places.filter (· ≠ s)).foldl (fun p d => p.absorb p.words[s] d) p) p
  (entropy.drop 4).foldl (fun p word => places.foldl (fun p d => p.absorb word d) p) p

end Pool

/-- Words drawn from a pool, whose own words are taken in turn from place `i` on. -/
def draw (words : Vector UInt32 4) : (n : Nat) → Fin 4 → UInt32 → List UInt32
  | 0, _, _ => []
  | n + 1, i, constant =>
    let (next, v) := stir constant 0x58f38ded words[i]
    v :: draw words n (i + 1) next

/-- Pair words into 64-bit ones, low half first. -/
def pair : List UInt32 → List Nat
  | low :: high :: rest => (low.toNat + high.toNat * 0x100000000) :: pair rest
  | _ => []

/-- Four 64-bit words for a seed. -/
def state (seed : Nat) : List Nat :=
  pair (draw (Pool.ofEntropy (words seed)).words 8 0 0x8b51f9dd)

end TileWorld.Seeding
