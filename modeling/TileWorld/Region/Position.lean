/-! Positions in a sequence, counted from its start or, when negative, from its end. -/
namespace TileWorld

/-- The place that a position names in a sequence of length `n`. -/
def position? (n : Nat) (i : Int) : Option (Fin n) :=
  if h : 0 ≤ i ∧ i < n then some ⟨i.toNat, by omega⟩
  else if h : i < 0 ∧ 0 ≤ i + n then some ⟨(i + n).toNat, by omega⟩
  else none

end TileWorld
