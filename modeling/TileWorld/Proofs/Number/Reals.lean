import Mathlib.Analysis.Real.Sqrt
import Mathlib.Tactic
import TileWorld.Proofs.Number.Exact

/-! The same arithmetic on real numbers, which have square roots. -/
namespace TileWorld

/-- Nothing is rounded, and reals are not written out. -/
noncomputable instance : Scalar ℝ where
  lt x y := decide (x < y)
  le x y := decide (x ≤ y)
  ofInt? n := .ok n
  quotient? a b := .ok (a / b)
  truncate? x := .ok (if 0 ≤ x then ⌊x⌋ else ⌈x⌉)
  store x := x
  text _ := "a real number"

noncomputable instance : SquareRoot ℝ := ⟨Real.sqrt⟩

namespace Scalar

theorem lt_real {x y : ℝ} : lt x y = true ↔ x < y := decide_eq_true_iff

theorem zero_real : ((0.0 : ℝ) : ℝ) = 0 := by norm_num

theorem half_real : ((0.5 : ℝ) : ℝ) = 1 / 2 := by norm_num

theorem one_real : ((1.0 : ℝ) : ℝ) = 1 := by norm_num

theorem two_real : ((2.0 : ℝ) : ℝ) = 2 := by norm_num

end Scalar
end TileWorld
