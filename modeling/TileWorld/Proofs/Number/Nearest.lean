import Mathlib

/-! Rounding to the nearest double, as a number among all doubles in order. Zero is number 0, the
positive doubles follow, and rounding never puts a greater number before a smaller one. -/
namespace TileWorld.Double

/-- The nearest integer, of two the even one. -/
def roundEven (x : ℚ) : ℤ :=
  if x + 1 / 2 = ⌊x + 1 / 2⌋ ∧ ⌊x + 1 / 2⌋ % 2 = 1 then ⌊x + 1 / 2⌋ - 1 else ⌊x + 1 / 2⌋

theorem roundEven_mono {x y : ℚ} (h : x ≤ y) : roundEven x ≤ roundEven y := by
  rcases h.eq_or_lt with rfl | h
  · exact le_rfl
  have hfloor : ⌊x + 1 / 2⌋ ≤ ⌊y + 1 / 2⌋ := Int.floor_le_floor (by linarith)
  have hx := Int.floor_le (x + 1 / 2)
  unfold roundEven
  split_ifs with hx' hy hy
  · omega
  · omega
  · -- A tie that is lowered lies above the whole range that rounds to the same integer.
    have hne : ⌊x + 1 / 2⌋ ≠ ⌊y + 1 / 2⌋ := by
      intro heq
      have hy := hy.1
      rw [← heq] at hy
      linarith
    omega
  · exact hfloor

@[simp] theorem roundEven_intCast (n : ℤ) : roundEven n = n := by
  have hfloor : ⌊(n : ℚ) + 1 / 2⌋ = n := by
    rw [Int.floor_eq_iff]
    constructor <;> linarith
  unfold roundEven
  rw [hfloor, if_neg]
  rintro ⟨h, -⟩
  linarith

theorem roundEven_le {x : ℚ} {n : ℤ} (h : x ≤ n) : roundEven x ≤ n := by
  simpa using roundEven_mono h

theorem le_roundEven {x : ℚ} {n : ℤ} (h : n ≤ x) : n ≤ roundEven x := by
  simpa using roundEven_mono h

/-- The exponent of the last digit that a positive number is rounded at. -/
def lastDigit (x : ℚ) : ℤ := max (Int.log 2 x - 52) (-1074)

/-- A positive number in units of its last digit. -/
def scaled (x : ℚ) : ℚ := x / 2 ^ lastDigit x

theorem two_zpow_pos (e : ℤ) : (0 : ℚ) < 2 ^ e := by positivity

theorem lastDigit_mono {x y : ℚ} (hx : 0 < x) (h : x ≤ y) : lastDigit x ≤ lastDigit y := by
  have := Int.log_mono_right (b := 2) hx h
  unfold lastDigit
  omega

theorem scaled_nonneg {x : ℚ} (hx : 0 < x) : 0 ≤ scaled x := (div_pos hx (two_zpow_pos _)).le

theorem scaled_lt (x : ℚ) : scaled x < 2 ^ 53 := by
  have hlog : x < 2 ^ (Int.log 2 x + 1) := by
    exact_mod_cast Int.lt_zpow_succ_log_self one_lt_two x
  have hexp : (2 : ℚ) ^ (Int.log 2 x + 1) ≤ 2 ^ (53 + lastDigit x) := by
    refine zpow_le_zpow_right₀ one_le_two ?_
    unfold lastDigit
    omega
  rw [scaled, div_lt_iff₀ (two_zpow_pos _)]
  calc x < 2 ^ (Int.log 2 x + 1) := hlog
    _ ≤ 2 ^ (53 + lastDigit x) := hexp
    _ = 2 ^ 53 * 2 ^ lastDigit x := by
      rw [zpow_add₀ two_ne_zero]
      norm_num

/-- Above the smallest exponent a number in its last digit has full length. -/
theorem le_scaled {x : ℚ} (hx : 0 < x) (h : lastDigit x ≠ -1074) : 2 ^ 52 ≤ scaled x := by
  have hlog : (2 : ℚ) ^ Int.log 2 x ≤ x := by
    exact_mod_cast Int.zpow_log_le_self one_lt_two hx
  have hexp : 52 + lastDigit x = Int.log 2 x := by
    unfold lastDigit at h ⊢
    omega
  rw [scaled, le_div_iff₀ (two_zpow_pos _)]
  calc (2 : ℚ) ^ 52 * 2 ^ lastDigit x = 2 ^ (52 + lastDigit x) := by
        rw [zpow_add₀ two_ne_zero]
        norm_num
    _ = 2 ^ Int.log 2 x := by rw [hexp]
    _ ≤ x := hlog

theorem scaled_mono {x y : ℚ} (h : x ≤ y) (hdigit : lastDigit x = lastDigit y) :
    scaled x ≤ scaled y := by
  unfold scaled
  rw [hdigit]
  exact div_le_div_of_nonneg_right h (two_zpow_pos _).le

/-- The number, among the doubles from zero on, of a mantissa at an exponent. -/
def rank (m : ℕ) (e : ℤ) : ℕ := (e + 1074).toNat * 2 ^ 52 + m

/-- The number of the double nearest to a number, as if there was no greatest double. -/
def nearest (x : ℚ) : ℕ := if x ≤ 0 then 0 else rank (roundEven (scaled x)).toNat (lastDigit x)

theorem neg_1074_le_lastDigit (x : ℚ) : -1074 ≤ lastDigit x := le_max_right _ _

theorem roundEven_scaled {x : ℚ} (hx : 0 < x) :
    0 ≤ roundEven (scaled x) ∧ roundEven (scaled x) ≤ 2 ^ 53 ∧
      (lastDigit x ≠ -1074 → 2 ^ 52 ≤ roundEven (scaled x)) := by
  refine ⟨le_roundEven ?_, roundEven_le ?_, fun h => le_roundEven ?_⟩
  · exact_mod_cast scaled_nonneg hx
  · exact_mod_cast (scaled_lt x).le
  · exact_mod_cast le_scaled hx h

/-- Rounding keeps the order of numbers. -/
theorem nearest_mono {x y : ℚ} (h : x ≤ y) : nearest x ≤ nearest y := by
  by_cases hx : x ≤ 0
  · rw [nearest, if_pos hx]
    exact Nat.zero_le _
  have hx : 0 < x := not_le.mp hx
  have hy : 0 < y := hx.trans_le h
  rw [nearest, nearest, if_neg hx.not_ge, if_neg hy.not_ge]
  obtain ⟨hx₀, hxtop, -⟩ := roundEven_scaled hx
  obtain ⟨hy₀, -, hyfull⟩ := roundEven_scaled hy
  have hxmin := neg_1074_le_lastDigit x
  unfold rank
  rcases (lastDigit_mono hx h).eq_or_lt with hdigit | hdigit
  · have := roundEven_mono (scaled_mono h hdigit)
    omega
  · -- With more digits before the last one, the greater number has full length.
    have := hyfull (by omega)
    omega

end TileWorld.Double
