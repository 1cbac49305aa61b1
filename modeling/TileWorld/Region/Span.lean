import TileWorld.Number.Scalar

/-! Half-open intervals of numbers. -/
namespace TileWorld

/-- The numbers from `start` up to, but not including, `stop`. -/
structure Span (α : Type) where
  start : α
  stop : α
deriving Repr

namespace Span
variable {α : Type} [Scalar α]

/-- From zero to one. -/
def full : Span α := ⟨0.0, 1.0⟩

def length (s : Span α) : α := s.stop - s.start

def contains (s : Span α) (x : α) : Bool := Scalar.le s.start x && Scalar.lt x s.stop

/-- The span seen from the other end of the unit interval. -/
def flip (s : Span α) : Span α := ⟨1.0 - s.stop, 1.0 - s.start⟩

def same (s t : Span α) : Bool := Scalar.same s.start t.start && Scalar.same s.stop t.stop

end Span
end TileWorld
