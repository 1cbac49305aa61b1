import TileWorld.Proofs.Number.Unpacked

/-! Rounding as the machine does it, with two bits kept of all that is shifted out, gives the
nearest double. -/
namespace TileWorld.Double
open Float.Model (UnpackedFloat Format totalExponent)
open Float.Model.UnpackedFloat

/-- A mantissa with its two further bits tells the halves below a number, and whether there is
more. -/
structure Reads (em : ExtendedMantissa) (z : ℚ) : Prop where
  halves : ⌊2 * z⌋ = 2 * em.mantissa + em.roundBit.toNat
  sticky : em.stickyBit = true ↔ (⌊2 * z⌋ : ℚ) ≠ 2 * z

theorem reads_exact (m : ℕ) : Reads (ExtendedMantissa.ofMantissaAndAccuracy m .exact) m := by
  have hfloor : ⌊2 * (m : ℚ)⌋ = 2 * m := by exact_mod_cast Int.floor_natCast (R := ℚ) (2 * m)
  constructor
  · rw [hfloor]
    simp [ExtendedMantissa.ofMantissaAndAccuracy]
  · rw [hfloor]
    simp [ExtendedMantissa.ofMantissaAndAccuracy]

theorem Reads.floor {em : ExtendedMantissa} {z : ℚ} (h : Reads em z) : ⌊z⌋ = em.mantissa := by
  have hlow := Int.floor_le (2 * z)
  have hhigh := Int.lt_floor_add_one (2 * z)
  have hbit : em.roundBit.toNat ≤ 1 := Bool.toNat_le _
  have hhalves : (⌊2 * z⌋ : ℚ) = 2 * em.mantissa + em.roundBit.toNat := by exact_mod_cast h.halves
  have hbit' : (em.roundBit.toNat : ℚ) ≤ 1 := by exact_mod_cast hbit
  have hbit₀ : (0 : ℚ) ≤ em.roundBit.toNat := Nat.cast_nonneg _
  rw [Int.floor_eq_iff]
  push_cast
  constructor <;> linarith

/-- Nothing is shifted out of a number that is its own floor. -/
theorem Reads.exact_iff {em : ExtendedMantissa} {z : ℚ} (h : Reads em z) :
    (em.roundBit || em.stickyBit) = false ↔ (⌊z⌋ : ℚ) = z := by
  have hhalves : (⌊2 * z⌋ : ℚ) = 2 * em.mantissa + em.roundBit.toNat := by exact_mod_cast h.halves
  have hlow := Int.floor_le (2 * z)
  rw [h.floor, Int.cast_natCast, Bool.or_eq_false_iff]
  constructor
  · rintro ⟨hround, hsticky⟩
    have heq : (⌊2 * z⌋ : ℚ) = 2 * z := by
      by_contra hne
      have := h.sticky.mpr hne
      simp [hsticky] at this
    rw [hround] at hhalves
    simp at hhalves
    linarith
  · intro heq
    have hfloor : ⌊2 * z⌋ = 2 * em.mantissa := by
      rw [← heq]
      exact_mod_cast Int.floor_natCast (R := ℚ) (2 * em.mantissa)
    constructor
    · have := h.halves
      rw [hfloor] at this
      cases hround : em.roundBit with
      | false => rfl
      | true =>
        rw [hround] at this
        simp at this
    · cases hsticky : em.stickyBit with
      | false => rfl
      | true =>
        refine absurd ?_ (h.sticky.mp hsticky)
        rw [hfloor, ← heq]
        push_cast
        rfl

theorem Reads.shiftRightOne {em : ExtendedMantissa} {z : ℚ} (h : Reads em z) :
    Reads em.shiftRightOne (z / 2) := by
  have hz : 2 * (z / 2) = z := by ring
  constructor
  · rw [hz, h.floor]
    show (em.mantissa : ℤ) = 2 * (em.mantissa / 2 : ℕ) + (em.mantissa % 2 != 0).toNat
    rcases Nat.mod_two_eq_zero_or_one em.mantissa with hmod | hmod
    · rw [hmod]
      simp
      omega
    · rw [hmod]
      simp
      omega
  · rw [hz, ne_eq, ← h.exact_iff, Bool.not_eq_false]
    rfl

theorem Reads.shiftRight {em : ExtendedMantissa} {z : ℚ} (h : Reads em z) (n : ℕ) :
    Reads (em >>> n) (z / 2 ^ n) := by
  induction n with
  | zero =>
    rw [pow_zero, div_one]
    exact h
  | succ n ih =>
    rw [pow_succ, ← div_div]
    exact ih.shiftRightOne

/-- Adding a half to a number below which the second half of a unit begins passes the next one. -/
theorem Reads.floor_add_half {em : ExtendedMantissa} {z : ℚ} (h : Reads em z) :
    ⌊z + 1 / 2⌋ = em.mantissa + em.roundBit.toNat := by
  have hlow := Int.floor_le (2 * z)
  have hhigh := Int.lt_floor_add_one (2 * z)
  have hhalves : (⌊2 * z⌋ : ℚ) = 2 * em.mantissa + em.roundBit.toNat := by exact_mod_cast h.halves
  rw [Int.floor_eq_iff]
  push_cast
  cases hround : em.roundBit with
  | false =>
    simp [hround] at hhalves ⊢
    constructor <;> linarith
  | true =>
    simp [hround] at hhalves ⊢
    constructor <;> linarith

theorem Reads.tie_iff {em : ExtendedMantissa} {z : ℚ} (h : Reads em z) :
    z + 1 / 2 = ⌊z + 1 / 2⌋ ↔ em.roundBit = true ∧ em.stickyBit = false := by
  have hlow := Int.floor_le (2 * z)
  have hhalves : (⌊2 * z⌋ : ℚ) = 2 * em.mantissa + em.roundBit.toNat := by exact_mod_cast h.halves
  rw [h.floor_add_half]
  push_cast
  cases hround : em.roundBit with
  | false =>
    simp only [hround, Bool.toNat_false, Nat.cast_zero, add_zero] at hhalves ⊢
    simp only [Bool.false_eq_true, false_and, iff_false]
    intro heq
    linarith
  | true =>
    simp only [hround, Bool.toNat_true, Nat.cast_one, true_and] at hhalves ⊢
    rw [← Bool.not_eq_true, h.sticky, not_not, hhalves]
    constructor <;> intro heq <;> linarith

theorem Reads.roundedMantissa {em : ExtendedMantissa} {z : ℚ} (h : Reads em z) :
    (em.roundedMantissa : ℤ) = roundEven z := by
  have htie := h.tie_iff
  have hfloor := h.floor_add_half
  unfold roundEven
  simp only [htie]
  rw [hfloor]
  obtain ⟨m, r, s⟩ := em
  cases r <;> cases s <;>
    simp [ExtendedMantissa.roundedMantissa, ExtendedMantissa.accuracy, Accuracy.roundToNearestEven]
  split_ifs <;> omega

theorem targetExponent_eq (e : ℤ) : Format.binary64.targetExponent e = max (e - 53) (-1074) := rfl

theorem targetExponent_of_bounds {m : ℕ} {e : ℤ} {x : ℚ} (hm : 0 < m) (hx : m * 2 ^ e ≤ x)
    (hx' : x < (m + 1) * 2 ^ e) :
    Format.binary64.targetExponent (totalExponent m e) = lastDigit x := by
  rw [targetExponent_eq, totalExponent, lastDigit_of_bounds hm hx hx']
  congr 1
  ring

theorem targetExponent_totalExponent {m : ℕ} (e : ℤ) (hm : 0 < m) :
    Format.binary64.targetExponent (totalExponent m e) = lastDigit (m * 2 ^ e) :=
  targetExponent_of_bounds hm le_rfl (mul_lt_mul_of_pos_right (lt_add_one _) (two_zpow_pos e))

/-- The digits of a number are counted by its integer part, even when there are none. -/
theorem Reads.targetExponent {em : ExtendedMantissa} {z : ℚ} (h : Reads em z) (hz : 0 < z)
    {e : ℤ} (he : e ≤ lastDigit (z * 2 ^ e)) :
    Format.binary64.targetExponent (totalExponent em.mantissa e) = lastDigit (z * 2 ^ e) := by
  have hpow := two_zpow_pos e
  obtain ⟨hlow, hhigh⟩ := Int.floor_eq_iff.mp h.floor
  rw [Int.cast_natCast] at hlow hhigh
  rcases em.mantissa.eq_zero_or_pos with hm | hm
  · have hlt : z * 2 ^ e < 2 ^ e := by
      rw [hm, Nat.cast_zero, zero_add] at hhigh
      exact mul_lt_of_lt_one_left hpow hhigh
    have hlog : Int.log 2 (z * 2 ^ e) < e :=
      (Int.lt_zpow_iff_log_lt one_lt_two (mul_pos hz hpow)).mp (by exact_mod_cast hlt)
    rw [targetExponent_eq, totalExponent, hm, Nat.log2_zero]
    unfold lastDigit at he ⊢
    omega
  · exact targetExponent_of_bounds hm (mul_le_mul_of_nonneg_right hlow hpow.le)
      (mul_lt_mul_of_pos_right hhigh hpow)

theorem mantissa_ofMantissaAndAccuracy (m : ℕ) (a : Accuracy) :
    (ExtendedMantissa.ofMantissaAndAccuracy m a).mantissa = m := by
  rcases a with _ | ⟨_ | _ | _⟩ <;> rfl

/-- The first shift leaves the number in units of its last digit. -/
theorem shiftToTargetExponent_eq {m : ℕ} {a : Accuracy} {z : ℚ}
    (h : Reads (ExtendedMantissa.ofMantissaAndAccuracy m a) z) (hz : 0 < z) {e : ℤ}
    (he : e ≤ lastDigit (z * 2 ^ e)) :
    (shiftToTargetExponent Format.binary64 m e a).2 = lastDigit (z * 2 ^ e) ∧
      Reads (shiftToTargetExponent Format.binary64 m e a).1 (scaled (z * 2 ^ e)) := by
  have htarget := h.targetExponent hz he
  rw [mantissa_ofMantissaAndAccuracy] at htarget
  unfold shiftToTargetExponent shiftToExponent
  rw [htarget]
  generalize hdigit : lastDigit (z * 2 ^ e) = d at he
  have hshift : ((d - e).toNat : ℤ) = d - e := Int.toNat_of_nonneg (by omega)
  constructor
  · show e + ((d - e).toNat : ℤ) = d
    omega
  · have hscaled : scaled (z * 2 ^ e) = z / 2 ^ (d - e).toNat := by
      rw [scaled, hdigit, ← zpow_natCast, hshift, zpow_sub₀ two_ne_zero]
      field_simp
    rw [hscaled]
    exact h.shiftRight _

/-- A mantissa that is short enough is not shifted again. -/
theorem shiftToTargetExponent_of_lt {r : ℕ} {e : ℤ} (hr : r < 2 ^ 53) (he : -1074 ≤ e) :
    shiftToTargetExponent Format.binary64 r e .exact = (⟨r, false, false⟩, e) := by
  have hlog : r.log2 ≤ 52 := by
    rcases r.eq_zero_or_pos with rfl | hpos
    · rw [Nat.log2_zero]
      omega
    · have := (Nat.log2_lt hpos.ne').mpr hr
      omega
  have hshift : (Format.binary64.targetExponent (totalExponent r e) - e).toNat = 0 := by
    rw [targetExponent_eq, totalExponent]
    omega
  simp only [shiftToTargetExponent, shiftToExponent, hshift, Nat.cast_zero, add_zero]
  rfl

/-- Rounding up to the next power of two leaves one digit too many. -/
theorem shiftToTargetExponent_carry {e : ℤ} (he : -1074 ≤ e) :
    shiftToTargetExponent Format.binary64 (2 ^ 53) e .exact = (⟨2 ^ 52, false, false⟩, e + 1) := by
  have hshift : (Format.binary64.targetExponent (totalExponent (2 ^ 53) e) - e).toNat = 1 := by
    rw [targetExponent_eq, totalExponent, Nat.log2_two_pow]
    omega
  simp only [shiftToTargetExponent, shiftToExponent, hshift]
  rfl

/-- Dropping digits rounds to the nearest double, also of digits that were told in part only. -/
theorem Reads.roundWithAccuracy_place {m : ℕ} {a : Accuracy} {z : ℚ}
    (h : Reads (ExtendedMantissa.ofMantissaAndAccuracy m a) z) (hz : 0 < z) (s : Sign) {e : ℤ}
    (he : e ≤ lastDigit (z * 2 ^ e)) :
    Canonical (roundWithAccuracy Format.binary64 s m e a) ∧
      place? (roundWithAccuracy Format.binary64 s m e a) =
        some (s.apply (nearest (z * 2 ^ e))) := by
  have hpos : (0 : ℚ) < z * 2 ^ e := mul_pos hz (two_zpow_pos e)
  obtain ⟨hexponent, hreads⟩ := shiftToTargetExponent_eq h hz he
  obtain ⟨-, htop, hfull⟩ := roundEven_scaled hpos
  have hmin := neg_1074_le_lastDigit (z * 2 ^ e)
  rw [nearest, if_neg hpos.not_ge, ← hreads.roundedMantissa, Int.toNat_natCast]
  rw [← hreads.roundedMantissa] at htop hfull
  unfold roundWithAccuracy
  generalize shiftToTargetExponent Format.binary64 m e a = first at hexponent hreads htop hfull
  obtain ⟨em, d⟩ := first
  simp only at hexponent hreads htop hfull ⊢
  rw [← hexponent] at hmin hfull ⊢
  generalize em.roundedMantissa = r at htop hfull
  rcases Nat.lt_or_ge r (2 ^ 53) with hr | hr
  · rw [shiftToTargetExponent_of_lt hr hmin]
    rcases r.eq_zero_or_pos with rfl | hr₀
    · obtain rfl : d = -1074 := by
        by_contra hne
        have := hfull hne
        omega
      cases s <;> exact ⟨trivial, rfl⟩
    · rw [dif_neg hr₀.ne']
      refine ⟨⟨hr, hmin, ?_⟩, rfl⟩
      by_cases hd : d = -1074
      · exact Or.inr hd
      · have := hfull hd
        exact Or.inl (show 2 ^ 52 ≤ r by omega)
  · obtain rfl : r = 2 ^ 53 := by omega
    rw [shiftToTargetExponent_carry hmin, dif_neg (by norm_num)]
    refine ⟨⟨by norm_num, by omega, Or.inl le_rfl⟩, ?_⟩
    have hrank : rank (2 ^ 52) (d + 1) = rank (2 ^ 53) d := by
      unfold rank
      omega
    show some (s.apply (rank (2 ^ 52) (d + 1))) = _
    rw [hrank]

theorem roundWithAccuracy_place (s : Sign) {m : ℕ} {e : ℤ} (hm : 0 < m)
    (he : e ≤ lastDigit (m * 2 ^ e)) :
    Canonical (roundWithAccuracy Format.binary64 s m e .exact) ∧
      place? (roundWithAccuracy Format.binary64 s m e .exact) =
        some (s.apply (nearest (m * 2 ^ e))) :=
  (reads_exact m).roundWithAccuracy_place (by exact_mod_cast hm) s he

/-- Rounding at any exponent. -/
theorem round_place (s : Sign) {m : ℕ} (hm : 0 < m) (e : ℤ) :
    Canonical (UnpackedFloat.round Format.binary64 s m e) ∧
      place? (UnpackedFloat.round Format.binary64 s m e) = some (s.apply (nearest (m * 2 ^ e))) := by
  unfold UnpackedFloat.round decreaseExponent
  rw [targetExponent_totalExponent e hm]
  generalize hk : (e - lastDigit (m * 2 ^ e)).toNat = k
  simp only [hk, Nat.shiftLeft_eq]
  have hvalue : ((m * 2 ^ k : ℕ) : ℚ) * 2 ^ (e - k) = m * 2 ^ e := by
    rw [zpow_sub₀ two_ne_zero, zpow_natCast]
    push_cast
    field_simp
  have hround := roundWithAccuracy_place s (m := m * 2 ^ k) (e := e - k) (by positivity)
    (by rw [hvalue]; omega)
  rwa [hvalue] at hround

/-- Rounding a signed mantissa. -/
theorem normalize_place (m : ℤ) (e : ℤ) (s : Sign) :
    Canonical (UnpackedFloat.normalize Format.binary64 m e s) ∧
      place? (UnpackedFloat.normalize Format.binary64 m e s) = some (nearestPlace (m * 2 ^ e)) := by
  unfold UnpackedFloat.normalize
  have hpow := two_zpow_pos e
  rcases lt_trichotomy m 0 with h | rfl | h
  · rw [compare_lt_iff_lt.mpr h]
    obtain ⟨hcanonical, hplace⟩ := round_place .negative (m := (-m).toNat) (by omega) e
    refine ⟨hcanonical, hplace.trans ?_⟩
    have hm : (((-m).toNat : ℕ) : ℚ) = -(m : ℚ) := by
      exact_mod_cast Int.toNat_of_nonneg (by omega : 0 ≤ -m)
    have hneg : (m : ℚ) * 2 ^ e = -(-(m : ℚ) * 2 ^ e) := by ring
    rw [hm, hneg, nearestPlace_neg, nearestPlace_of_nonneg]
    · rfl
    · have : (m : ℚ) < 0 := by exact_mod_cast h
      nlinarith
  · refine ⟨trivial, ?_⟩
    simp [place?]
  · rw [compare_gt_iff_gt.mpr h]
    obtain ⟨hcanonical, hplace⟩ := round_place .positive (m := m.toNat) (by omega) e
    refine ⟨hcanonical, hplace.trans ?_⟩
    have hm : ((m.toNat : ℕ) : ℚ) = (m : ℚ) := by
      exact_mod_cast Int.toNat_of_nonneg h.le
    rw [hm, nearestPlace_of_nonneg]
    · rfl
    · have : (0 : ℚ) < m := by exact_mod_cast h
      positivity

end TileWorld.Double
