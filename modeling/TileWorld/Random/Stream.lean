import TileWorld.Random.Seeding

/-! A stream of random words: a 128-bit congruential state, of which every step shows a rotated
half; and permutations drawn from it. -/
namespace TileWorld

structure Stream where
  state : Nat
  increment : Nat
  /-- The upper half of the last 64-bit word, when only its lower half was used. -/
  spare : Option Nat
deriving DecidableEq, Repr

namespace Stream

/-- Number of 64-bit words. -/
def half : Nat := 0x10000000000000000

/-- Number of states. -/
def modulus : Nat := half * half

def factor : Nat := 0x2360ed051fc65da44385df649fccf645

def step (s : Stream) : Stream :=
  { s with state := (s.state * factor + s.increment) % modulus }

/-- The stream of a seed. -/
def ofSeed (seed : Nat) : Stream :=
  let w := Seeding.state seed
  let start := w.getD 0 0 * half + w.getD 1 0
  let sequence := w.getD 2 0 * half + w.getD 3 0
  let s : Stream := ⟨0, (sequence * 2 + 1) % modulus, none⟩
  let s := s.step
  { s with state := (s.state + start) % modulus }.step

/-- Rotate a 64-bit word right. -/
def rotate (x k : Nat) : Nat := ((x >>> k) ||| (x <<< (64 - k))) % half

/-- The next 64-bit word. -/
def word64 (s : Stream) : Nat × Stream :=
  let s := s.step
  (rotate ((s.state >>> 64) ^^^ (s.state % half)) (s.state >>> 122), s)

/-- The next 32-bit word: the lower half of a 64-bit one, then its upper half. -/
def word32 (s : Stream) : Nat × Stream :=
  match s.spare with
  | some w => (w, { s with spare := none })
  | none =>
    let (w, s) := s.word64
    (w % 0x100000000, { s with spare := some (w >>> 32) })

/-- The smallest number of ones that covers `n`. -/
def mask (n : Nat) : Nat := if n = 0 then 0 else (1 <<< (n.log2 + 1)) - 1

/-- A number up to `max`: the low bits of words, until one does not exceed it. Each draw hits with a
chance of at least one half; after `fuel` misses the answer is zero. -/
def below (max : Nat) : (fuel : Nat) → Stream → Nat × Stream
  | 0, s => (0, s)
  | fuel + 1, s =>
    let (w, s) := s.word32
    let j := w &&& mask max
    if j ≤ max then (j, s) else below max fuel s

/-- Draws allowed for one number. -/
def patience : Nat := 4096

/-- Exchange two entries. -/
def swap {β : Type} (xs : Array β) (i j : Nat) : Array β :=
  match xs[i]?, xs[j]? with
  | some a, some b => (xs.setIfInBounds i b).setIfInBounds j a
  | _, _ => xs

/-- Exchange the entries from `i` down to 1, each with one at or below it. -/
def shuffle {β : Type} : Nat → Array β → Stream → Array β × Stream
  | 0, xs, s => (xs, s)
  | i + 1, xs, s =>
    let (j, s) := below (i + 1) patience s
    shuffle i (swap xs (i + 1) j) s

/-- The entries of a list in random order. -/
def permute {β : Type} (xs : List β) (s : Stream) : List β × Stream :=
  let (ys, s) := shuffle (xs.length - 1) xs.toArray s
  (ys.toList, s)

end Stream
end TileWorld
