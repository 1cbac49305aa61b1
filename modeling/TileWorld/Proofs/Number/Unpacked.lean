import TileWorld.Proofs.Number.Nearest

/-! Doubles taken apart into sign, mantissa and exponent. Each stands at a place among all doubles,
counted from zero in both directions, and comparisons compare places. -/
namespace TileWorld.Double
open Float.Model (UnpackedFloat Format)
open Float.Model.UnpackedFloat (Sign)

/-- The place of positive infinity. -/
def infinityRank : ℕ := 2047 * 2 ^ 52

/-- Mantissas have full length, but for those at the smallest exponent. -/
def Canonical : UnpackedFloat → Prop
  | .finite _ m e _ => m < 2 ^ 53 ∧ -1074 ≤ e ∧ (2 ^ 52 ≤ m ∨ e = -1074)
  | _ => True

/-- Exponents do not pass the greatest one. -/
def Fits : UnpackedFloat → Prop
  | .finite _ _ e _ => e ≤ 971
  | _ => True

/-- The place of a number among all doubles in order; a non-number has none. -/
def place? : UnpackedFloat → Option ℤ
  | .notANumber => none
  | .infinity s => some (s.apply infinityRank)
  | .zero _ => some 0
  | .finite s m e _ => some (s.apply (rank m e))

/-- The exact value of a finite number. -/
def exact : UnpackedFloat → ℚ
  | .finite s m e _ => s.apply m * 2 ^ e
  | _ => 0

theorem rank_pos {m : ℕ} (hm : 0 < m) (e : ℤ) : 0 < rank m e := by
  unfold rank
  omega

theorem rank_lt_infinityRank {m : ℕ} {e : ℤ} (hm : m < 2 ^ 53) (he : e ≤ 971) :
    rank m e < infinityRank := by
  unfold rank infinityRank
  omega

theorem infinityRank_le_rank {m : ℕ} {e : ℤ} (hm : 2 ^ 52 ≤ m) (he : 971 < e) :
    infinityRank ≤ rank m e := by
  unfold rank infinityRank
  omega

/-- Canonical numbers are ordered by exponent first, as their ranks are. -/
theorem compare_rank {m n : ℕ} {e f : ℤ} (hm : m < 2 ^ 53) (hn : n < 2 ^ 53) (he : -1074 ≤ e)
    (hf : -1074 ≤ f) (hm' : 2 ^ 52 ≤ m ∨ e = -1074) (hn' : 2 ^ 52 ≤ n ∨ f = -1074) :
    (compare e f).then (compare m n) = compare (rank m e : ℤ) (rank n f) := by
  unfold rank
  rcases lt_trichotomy e f with h | rfl | h
  · rw [compare_lt_iff_lt.mpr h, Ordering.lt_then, eq_comm, compare_lt_iff_lt]
    omega
  · rw [compare_eq_iff_eq.mpr rfl, Ordering.eq_then]
    rcases lt_trichotomy m n with h | rfl | h
    · rw [compare_lt_iff_lt.mpr h, eq_comm, compare_lt_iff_lt]
      omega
    · rw [compare_eq_iff_eq.mpr rfl, compare_eq_iff_eq.mpr rfl]
    · rw [compare_gt_iff_gt.mpr h, eq_comm, compare_gt_iff_gt]
      omega
  · rw [compare_gt_iff_gt.mpr h, Ordering.gt_then, eq_comm, compare_gt_iff_gt]
    omega

theorem compare_neg_neg (a b : ℤ) : compare (-a) (-b) = (compare a b).swap := by
  rcases lt_trichotomy a b with h | rfl | h
  · rw [compare_lt_iff_lt.mpr h, Ordering.swap_lt, compare_gt_iff_gt]
    omega
  · rw [compare_eq_iff_eq.mpr rfl, compare_eq_iff_eq.mpr rfl, Ordering.swap_eq]
  · rw [compare_gt_iff_gt.mpr h, Ordering.swap_gt, compare_lt_iff_lt]
    omega

private theorem some_lt {a b : ℤ} (h : a < b) : some Ordering.lt = some (compare a b) := by
  rw [compare_lt_iff_lt.mpr h]

private theorem some_gt {a b : ℤ} (h : b < a) : some Ordering.gt = some (compare a b) := by
  rw [compare_gt_iff_gt.mpr h]

/-- Comparing numbers compares their places. -/
theorem compare_eq {u v : UnpackedFloat} (hu : Canonical u) (hv : Canonical v) (hu' : Fits u)
    (hv' : Fits v) :
    u.compare v = (place? u).bind fun a => (place? v).map fun b => compare a b := by
  have hinfinity : (0 : ℤ) < infinityRank := by decide
  cases u with
  | notANumber => cases v <;> rfl
  | infinity s =>
    cases v with
    | notANumber => cases s <;> rfl
    | infinity s' => cases s <;> cases s' <;> rfl
    | zero s' => cases s <;> rfl
    | finite s' n f hn =>
      have hlt := rank_lt_infinityRank hv.1 hv'
      cases s <;> cases s'
      · exact some_lt (show -(infinityRank : ℤ) < -rank n f by omega)
      · exact some_lt (show -(infinityRank : ℤ) < rank n f by omega)
      · exact some_gt (show -(rank n f : ℤ) < infinityRank by omega)
      · exact some_gt (show (rank n f : ℤ) < infinityRank by omega)
  | zero s =>
    cases v with
    | notANumber => rfl
    | infinity s' => cases s' <;> rfl
    | zero s' => rfl
    | finite s' n f hn =>
      have hpos := rank_pos hn f
      cases s'
      · exact some_gt (show -(rank n f : ℤ) < 0 by omega)
      · exact some_lt (show (0 : ℤ) < rank n f by omega)
  | finite s m e hm =>
    have hpos := rank_pos hm e
    have hlt := rank_lt_infinityRank hu.1 hu'
    cases v with
    | notANumber => rfl
    | infinity s' =>
      cases s <;> cases s'
      · exact some_gt (show -(infinityRank : ℤ) < -rank m e by omega)
      · exact some_lt (show -(rank m e : ℤ) < infinityRank by omega)
      · exact some_gt (show -(infinityRank : ℤ) < rank m e by omega)
      · exact some_lt (show (rank m e : ℤ) < infinityRank by omega)
    | zero s' =>
      cases s
      · exact some_lt (show -(rank m e : ℤ) < 0 by omega)
      · exact some_gt (show (0 : ℤ) < rank m e by omega)
    | finite s' n f hn =>
      have hpos' := rank_pos hn f
      have hrank := compare_rank hu.1 hv.1 hu.2.1 hv.2.1 hu.2.2 hv.2.2
      cases s <;> cases s'
      · change some ((compare e f).then (compare m n)).swap = some (compare (-(rank m e : ℤ)) (-rank n f))
        rw [hrank, compare_neg_neg]
      · exact some_lt (show -(rank m e : ℤ) < rank n f by omega)
      · exact some_gt (show -(rank n f : ℤ) < rank m e by omega)
      · exact congrArg some hrank

theorem le_iff {u v : UnpackedFloat} (hu : Canonical u) (hv : Canonical v) (hu' : Fits u)
    (hv' : Fits v) :
    u.le v = true ↔ ∃ a b, place? u = some a ∧ place? v = some b ∧ a ≤ b := by
  unfold UnpackedFloat.le
  rw [compare_eq hu hv hu' hv']
  cases place? u with
  | none => simp
  | some a =>
    cases place? v with
    | none => simp
    | some b => simp [Ordering.isLE_iff_ne_gt, compare_gt_iff_gt]

theorem lt_iff {u v : UnpackedFloat} (hu : Canonical u) (hv : Canonical v) (hu' : Fits u)
    (hv' : Fits v) :
    u.lt v = true ↔ ∃ a b, place? u = some a ∧ place? v = some b ∧ a < b := by
  unfold UnpackedFloat.lt
  rw [compare_eq hu hv hu' hv']
  cases place? u with
  | none => simp
  | some a =>
    cases place? v with
    | none => simp
    | some b => simp [compare_lt_iff_lt]

/-- A number between a mantissa and the next one has as many digits as the mantissa. -/
theorem log_of_bounds {m : ℕ} {e : ℤ} {x : ℚ} (hm : 0 < m) (hx : m * 2 ^ e ≤ x)
    (hx' : x < (m + 1) * 2 ^ e) : Int.log 2 x = m.log2 + e := by
  have he := two_zpow_pos e
  have hpos : 0 < x := lt_of_lt_of_le (by positivity) hx
  have hlow : ((2 : ℕ) : ℚ) ^ ((m.log2 : ℤ) + e) ≤ x := by
    have hm' : ((2 ^ m.log2 : ℕ) : ℚ) ≤ m := by exact_mod_cast Nat.log2_self_le hm.ne'
    calc ((2 : ℕ) : ℚ) ^ ((m.log2 : ℤ) + e) = ((2 ^ m.log2 : ℕ) : ℚ) * 2 ^ e := by
          rw [zpow_add₀ (by norm_num)]
          push_cast
          rw [zpow_natCast]
      _ ≤ m * 2 ^ e := mul_le_mul_of_nonneg_right hm' he.le
      _ ≤ x := hx
  have hhigh : x < ((2 : ℕ) : ℚ) ^ ((m.log2 : ℤ) + e + 1) := by
    have hm' : ((m + 1 : ℕ) : ℚ) ≤ ((2 ^ (m.log2 + 1) : ℕ) : ℚ) := by
      exact_mod_cast Nat.lt_log2_self
    calc x < (m + 1) * 2 ^ e := hx'
      _ ≤ ((2 ^ (m.log2 + 1) : ℕ) : ℚ) * 2 ^ e := by
        push_cast at hm'
        push_cast
        exact mul_le_mul_of_nonneg_right hm' he.le
      _ = ((2 : ℕ) : ℚ) ^ ((m.log2 : ℤ) + e + 1) := by
        rw [show (m.log2 : ℤ) + e + 1 = ((m.log2 + 1 : ℕ) : ℤ) + e by push_cast; ring,
          zpow_add₀ (by norm_num), zpow_natCast]
        push_cast
        ring
  have h₁ := (Int.zpow_le_iff_le_log one_lt_two hpos).mp hlow
  have h₂ := (Int.lt_zpow_iff_log_lt one_lt_two hpos).mp hhigh
  omega

theorem lastDigit_of_bounds {m : ℕ} {e : ℤ} {x : ℚ} (hm : 0 < m) (hx : m * 2 ^ e ≤ x)
    (hx' : x < (m + 1) * 2 ^ e) : lastDigit x = max (m.log2 + e - 52) (-1074) := by
  rw [lastDigit, log_of_bounds hm hx hx']

/-- A canonical number is its own nearest double. -/
theorem nearest_exact {m : ℕ} {e : ℤ} (hm : 0 < m) (hm' : m < 2 ^ 53) (he : -1074 ≤ e)
    (hfull : 2 ^ 52 ≤ m ∨ e = -1074) : nearest (m * 2 ^ e) = rank m e := by
  have hpow := two_zpow_pos e
  have hdigit : lastDigit (m * 2 ^ e) = e := by
    rw [lastDigit_of_bounds hm le_rfl (mul_lt_mul_of_pos_right (lt_add_one _) hpow)]
    have hlog : m.log2 < 53 := (Nat.log2_lt hm.ne').mpr hm'
    rcases hfull with hfull | rfl
    · have := (Nat.le_log2 hm.ne').mpr hfull
      omega
    · omega
  have hpos : (0 : ℚ) < m * 2 ^ e := by positivity
  have hscaled : scaled (m * 2 ^ e) = ((m : ℤ) : ℚ) := by
    rw [scaled, hdigit, mul_div_cancel_right₀ _ hpow.ne']
    rfl
  rw [nearest, if_neg hpos.not_ge, hscaled, roundEven_intCast, hdigit, Int.toNat_natCast]

theorem nearest_two_zpow {k : ℤ} (hk : -1022 ≤ k) : nearest (2 ^ k) = rank (2 ^ 52) (k - 52) := by
  have hvalue : (2 : ℚ) ^ k = (2 ^ 52 : ℕ) * 2 ^ (k - 52) := by
    rw [zpow_sub₀ two_ne_zero]
    push_cast
    field_simp
  rw [hvalue, nearest_exact (by norm_num) (by norm_num) (by omega) (Or.inl le_rfl)]

/-- The place of the double nearest to a number, as if there was no greatest double. -/
def nearestPlace (x : ℚ) : ℤ := if x < 0 then -nearest (-x) else nearest x

@[simp] theorem nearestPlace_zero : nearestPlace 0 = 0 := by simp [nearestPlace, nearest]

theorem nearestPlace_mono {x y : ℚ} (h : x ≤ y) : nearestPlace x ≤ nearestPlace y := by
  unfold nearestPlace
  split_ifs with hx hy
  · have := nearest_mono (neg_le_neg h)
    omega
  · omega
  · linarith
  · exact_mod_cast nearest_mono h

theorem nearestPlace_neg (x : ℚ) : nearestPlace (-x) = -nearestPlace x := by
  unfold nearestPlace
  rcases lt_trichotomy x 0 with h | rfl | h
  · rw [if_neg (by linarith), if_pos h, neg_neg]
  · simp [nearest]
  · rw [if_pos (by linarith), if_neg (by linarith), neg_neg]

theorem nearestPlace_of_nonneg {x : ℚ} (h : 0 ≤ x) : nearestPlace x = nearest x :=
  if_neg h.not_gt

/-- A magnitude with its sign. -/
def signed (s : Sign) (x : ℚ) : ℚ :=
  match s with
  | .negative => -x
  | .positive => x

theorem nearestPlace_signed (s : Sign) {x : ℚ} (h : 0 ≤ x) :
    nearestPlace (signed s x) = s.apply (nearest x) := by
  cases s with
  | negative => rw [signed, nearestPlace_neg, nearestPlace_of_nonneg h]; rfl
  | positive => exact nearestPlace_of_nonneg h

theorem exact_finite (s : Sign) (m : ℕ) (e : ℤ) (hm : 0 < m) :
    exact (.finite s m e hm) = signed s (m * 2 ^ e) := by
  cases s with
  | negative => simp [exact, signed, Sign.apply]
  | positive => simp [exact, signed, Sign.apply]

/-- A finite number stands at the place nearest to its exact value. -/
theorem nearestPlace_exact {u : UnpackedFloat} (hu : Canonical u) (hfinite : u.isFinite = true) :
    place? u = some (nearestPlace (exact u)) := by
  cases u with
  | notANumber => simp [UnpackedFloat.isFinite] at hfinite
  | infinity s => simp [UnpackedFloat.isFinite] at hfinite
  | zero s => simp [place?, exact]
  | finite s m e hm =>
    rw [exact_finite, nearestPlace_signed s (by positivity), nearest_exact hm hu.1 hu.2.1 hu.2.2]
    rfl

end TileWorld.Double
