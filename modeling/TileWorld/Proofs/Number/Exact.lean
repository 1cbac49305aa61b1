import Mathlib.Tactic
import TileWorld.Number.Scalar
import TileWorld.Proofs.Outcome

/-! The same arithmetic on exact numbers: nothing is rounded, and integer parts are exact. -/
namespace TileWorld

instance : Scalar ℚ where
  lt x y := decide (x < y)
  le x y := decide (x ≤ y)
  ofInt? n := .ok n
  quotient? a b := .ok (a / b)
  truncate? x := .ok (x.num.tdiv x.den)
  store x := x
  text x := toString x

namespace Scalar

theorem le_rat {x y : ℚ} : le x y = true ↔ x ≤ y := decide_eq_true_iff

theorem lt_rat {x y : ℚ} : lt x y = true ↔ x < y := decide_eq_true_iff

theorem zero_rat : ((0.0 : ℚ) : ℚ) = 0 := by norm_num

theorem one_rat : ((1.0 : ℚ) : ℚ) = 1 := by norm_num

theorem ofInt?_rat (n : ℤ) : (ofInt? n : Except Fault ℚ) = .ok (n : ℚ) := rfl

theorem sum_rat (xs : List ℚ) : sum xs = xs.sum := by
  rw [List.sum_eq_foldl, sum]
  congr 1
  norm_num

theorem same_rat {x y : ℚ} : same x y = true ↔ x = y := by
  rw [same, Bool.and_eq_true, le_rat, le_rat, le_antisymm_iff]

theorem divide?_rat {x y : ℚ} (hy : y ≠ 0) : divide? x y = .ok (x / y) :=
  if_neg (by rwa [same_rat, zero_rat])

theorem truncate?_rat {x : ℚ} (hx : 0 ≤ x) : truncate? x = .ok ⌊x⌋ := by
  have hnum : 0 ≤ x.num := Rat.num_nonneg.mpr hx
  rw [Rat.floor_def', ← Int.tdiv_eq_ediv_of_nonneg hnum]
  rfl

/-- A share of a whole is cut off to whole parts. -/
theorem scale?_rat {n : ℤ} {x : ℚ} (hn : 0 ≤ n) (hx : 0 ≤ x) : scale? n x = .ok ⌊n * x⌋ := by
  have hn' : (0 : ℚ) ≤ n := by exact_mod_cast hn
  exact truncate?_rat (mul_nonneg hn' hx)

end Scalar
end TileWorld
