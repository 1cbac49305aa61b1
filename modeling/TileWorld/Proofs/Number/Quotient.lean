import Mathlib.Tactic
import TileWorld.Region.Context

/-! Quotients of integers that do not come close to overflow have a nearest double. -/
namespace TileWorld.Quotient

theorem lastPlace_bounds (n d : ℕ) :
    (n.log2 : ℤ) - d.log2 - 53 ≤ lastPlace n d ∧
      lastPlace n d ≤ max ((n.log2 : ℤ) - d.log2 - 52) (-1074) := by
  unfold lastPlace
  dsimp only
  split_ifs <;> omega

theorem roundEven_le (n d : ℕ) : roundEven n d ≤ n / d + 1 := by
  unfold roundEven
  dsimp only
  split_ifs <;> omega

/-- A dividend that was shifted to its last place leaves at most 54 digits. -/
theorem shiftLeft_div_lt {n d k : ℕ} (hd : 0 < d) (hk : n.log2 + k ≤ d.log2 + 53) :
    (n <<< k) / d < 2 ^ 54 := by
  rw [Nat.div_lt_iff_lt_mul hd, Nat.shiftLeft_eq]
  calc n * 2 ^ k < 2 ^ (n.log2 + 1) * 2 ^ k :=
        Nat.mul_lt_mul_of_pos_right Nat.lt_log2_self (Nat.two_pow_pos k)
    _ = 2 ^ (n.log2 + k + 1) := by rw [← pow_add, Nat.add_right_comm]
    _ ≤ 2 ^ (54 + d.log2) := Nat.pow_le_pow_right two_pos (by omega)
    _ = 2 ^ 54 * 2 ^ d.log2 := pow_add _ _ _
    _ ≤ 2 ^ 54 * d := Nat.mul_le_mul_left _ (Nat.log2_self_le hd.ne')

theorem le_log2_shiftLeft {d : ℕ} (hd : 0 < d) (k : ℕ) : d.log2 + k ≤ (d <<< k).log2 := by
  have hpos : 0 < 2 ^ k := Nat.two_pow_pos k
  rw [Nat.shiftLeft_eq, Nat.le_log2 (Nat.mul_pos hd hpos).ne', pow_add]
  exact Nat.mul_le_mul_right _ (Nat.log2_self_le hd.ne')

/-- A quotient far below the greatest double has bits. -/
theorem exists_bits? {n d : ℕ} (hd : 0 < d) (h : n.log2 ≤ d.log2 + 900) :
    ∃ w, bits? n d = some w := by
  unfold bits?
  split_ifs with hn
  · exact ⟨0, rfl⟩
  obtain ⟨hlow, hhigh⟩ := lastPlace_bounds n d
  have hplace : (lastPlace n d + 1074).toNat ≤ 1922 := by omega
  have hdigits : (if 0 ≤ lastPlace n d then roundEven n (d <<< (lastPlace n d).toNat)
      else roundEven (n <<< (-lastPlace n d).toNat) d) ≤ 2 ^ 54 := by
    split_ifs with hneg
    · have hshift : 0 < d <<< (lastPlace n d).toNat := by
        rw [Nat.shiftLeft_eq]
        positivity
      have hlog := le_log2_shiftLeft hd (lastPlace n d).toNat
      have hlt := shiftLeft_div_lt (n := n) (k := 0) hshift (by omega)
      have hround := roundEven_le n (d <<< (lastPlace n d).toNat)
      rw [Nat.shiftLeft_zero] at hlt
      omega
    · have hlt := shiftLeft_div_lt (n := n) (k := (-lastPlace n d).toNat) hd (by omega)
      have hround := roundEven_le (n <<< (-lastPlace n d).toNat) d
      omega
  simp only [Nat.shiftLeft_eq] at hdigits ⊢
  rw [if_pos (by omega)]
  exact ⟨_, rfl⟩

theorem exists_nearest? {a b : ℤ} (hb : b ≠ 0) (h : |a| ≤ 2 ^ 253 ∨ a.natAbs ≤ b.natAbs) :
    ∃ x, nearest? a b = some x := by
  have hlog : a.natAbs.log2 ≤ b.natAbs.log2 + 900 := by
    by_cases ha : a.natAbs = 0
    · rw [ha]
      exact Nat.zero_le _
    rcases h with h | h
    · have hlt : a.natAbs < 2 ^ 254 := by
        rw [← Int.ofNat_lt, Int.natCast_natAbs]
        exact h.trans_lt (by norm_num)
      have := (Nat.log2_lt ha).mpr hlt
      omega
    · have := (Nat.le_log2 (Int.natAbs_ne_zero.mpr hb)).mpr ((Nat.log2_self_le ha).trans h)
      omega
  obtain ⟨w, hw⟩ := exists_bits? (Int.natAbs_pos.mpr hb) hlog
  exact ⟨_, by rw [nearest?, hw, Option.map_some]⟩

end TileWorld.Quotient

namespace TileWorld

/-- Every number of an interval has a place in it. -/
theorem Interval.exists_local? {i : Interval} {n : ℤ} (h : i.contains n = true) :
    ∃ x : Float, i.local? n = .ok x := by
  have hn := (contains_iff i n).mp h
  unfold local?
  split_ifs with hextent
  · exact ⟨0.0, rfl⟩
  · have hpos : i.extent = i.stop - i.start := rfl
    obtain ⟨x, hx⟩ := Quotient.exists_nearest? (a := n - i.start) hextent (Or.inr (by omega))
    exact ⟨x, by simp only [Scalar.quotient?, hx]⟩

end TileWorld
