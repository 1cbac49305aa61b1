import TileWorld.Proofs.Number.Scaled

/-! Quotients of doubles taken apart go to the place nearest to the exact one. What the division of
the mantissas leaves over tells the two further bits. -/
namespace TileWorld.Double
open Float.Model (UnpackedFloat Format totalExponent)
open Float.Model.UnpackedFloat

/-- The two bits of a remainder: whether it reaches half of the divisor, and whether there is more. -/
theorem accuracyOfFraction_bits (m : ℕ) {r d : ℕ} (h : r < d) :
    (ExtendedMantissa.ofMantissaAndAccuracy m (accuracyOfFraction r d)).roundBit.toNat = 2 * r / d ∧
      ((ExtendedMantissa.ofMantissaAndAccuracy m (accuracyOfFraction r d)).stickyBit = true ↔
        2 * r % d ≠ 0) := by
  have hreach (hd : d ≤ 2 * r) : 2 * r / d = 1 ∧ 2 * r % d = 2 * r - d := by
    rw [Nat.div_eq_sub_div (by omega) hd, Nat.mod_eq_sub_mod hd, Nat.div_eq_of_lt (by omega),
      Nat.mod_eq_of_lt (by omega)]
    exact ⟨rfl, rfl⟩
  unfold accuracyOfFraction
  rcases r.eq_zero_or_pos with rfl | hr
  · simp [ExtendedMantissa.ofMantissaAndAccuracy]
  rw [if_neg hr.ne']
  rcases lt_trichotomy (2 * r) d with hlt | heq | hgt
  · rw [compare_lt_iff_lt.mpr hlt, Nat.div_eq_of_lt hlt, Nat.mod_eq_of_lt hlt]
    exact ⟨rfl, iff_of_true rfl (by omega)⟩
  · rw [compare_eq_iff_eq.mpr heq, (hreach heq.ge).1, (hreach heq.ge).2]
    exact ⟨rfl, iff_of_false Bool.false_ne_true (by omega)⟩
  · rw [compare_gt_iff_gt.mpr hgt, (hreach hgt.le).1, (hreach hgt.le).2]
    exact ⟨rfl, iff_of_true rfl (by omega)⟩

/-- A quotient is read off its integer part and what is left over. -/
theorem reads_div (n : ℕ) {d : ℕ} (hd : 0 < d) :
    Reads (ExtendedMantissa.ofMantissaAndAccuracy (n / d) (accuracyOfFraction (n % d) d))
      (n / d) := by
  obtain ⟨hround, hsticky⟩ := accuracyOfFraction_bits (n / d) (Nat.mod_lt n hd)
  have htwice : 2 * ((n : ℚ) / d) = ((2 * n : ℕ) : ℚ) / d := by
    push_cast
    ring
  have hfloor : ⌊2 * ((n : ℚ) / d)⌋ = ((2 * n / d : ℕ) : ℤ) := by
    rw [htwice]
    exact_mod_cast Rat.floor_natCast_div_natCast (2 * n) d
  have hsplit : 2 * n = 2 * (n % d) + d * (2 * (n / d)) := by
    conv_lhs => rw [← Nat.div_add_mod n d]
    ring
  constructor
  · rw [hfloor, mantissa_ofMantissaAndAccuracy, hround, hsplit, Nat.add_mul_div_left _ _ hd]
    push_cast
    ring
  · have hd' : (d : ℚ) ≠ 0 := by exact_mod_cast hd.ne'
    have hmod : 2 * n % d = 2 * (n % d) % d := by
      rw [hsplit, Nat.add_mul_mod_self_left]
    have hrest := Nat.div_add_mod' (2 * n) d
    rw [hsticky, hfloor, htwice, Int.cast_natCast, ne_eq, ne_eq, not_iff_not, eq_div_iff hd',
      ← Nat.cast_mul, Nat.cast_inj, ← hmod]
    omega

/-- A quotient has at most one digit less than its mantissas let expect. -/
theorem le_log_div {m n : ℕ} (e f : ℤ) (hm : 0 < m) (hn : 0 < n) :
    (m.log2 + e) - (n.log2 + f) - 1 ≤ Int.log 2 ((m : ℚ) * 2 ^ e / (n * 2 ^ f)) := by
  have hm' : (2 : ℚ) ^ (m.log2 : ℤ) ≤ m := by
    rw [zpow_natCast]
    exact_mod_cast Nat.log2_self_le hm.ne'
  have hn' : (n : ℚ) ≤ 2 ^ ((n.log2 : ℤ) + 1) := by
    rw [← Nat.cast_add_one, zpow_natCast]
    exact_mod_cast (Nat.lt_log2_self (n := n)).le
  have hpos : (0 : ℚ) < n * 2 ^ f := by positivity
  rw [← Int.zpow_le_iff_le_log one_lt_two (by positivity), Nat.cast_ofNat, le_div_iff₀ hpos]
  calc (2 : ℚ) ^ ((m.log2 + e) - (n.log2 + f) - 1) * (n * 2 ^ f)
      ≤ 2 ^ ((m.log2 + e) - (n.log2 + f) - 1) * (2 ^ ((n.log2 : ℤ) + 1) * 2 ^ f) := by gcongr
    _ = 2 ^ (m.log2 : ℤ) * 2 ^ e := by
      rw [← zpow_add₀ two_ne_zero, ← zpow_add₀ two_ne_zero, ← zpow_add₀ two_ne_zero]
      congr 1
      ring
    _ ≤ m * 2 ^ e := by gcongr

/-- The digits that a quotient is divided to are no fewer than those it is rounded to. -/
theorem divCore_le_lastDigit {m n : ℕ} (e f : ℤ) (hm : 0 < m) (hn : 0 < n) :
    (divCore Format.binary64 m e n f).2.1 ≤ lastDigit (m * 2 ^ e / (n * 2 ^ f)) := by
  have hlog := le_log_div e f hm hn
  show min (e - f) (Format.binary64.targetExponent (totalExponent m e - totalExponent n f)) ≤ _
  rw [targetExponent_eq, totalExponent, totalExponent, lastDigit]
  omega

/-- The mantissa of the dividend is shifted by whole digits before it is divided. -/
theorem divCore_value (m n : ℕ) (e f : ℤ) :
    ∃ k : ℕ, (divCore Format.binary64 m e n f).1 = m * 2 ^ k / n ∧
      (divCore Format.binary64 m e n f).2.2 = accuracyOfFraction (m * 2 ^ k % n) n ∧
      ((m * 2 ^ k : ℕ) : ℚ) / n * 2 ^ (divCore Format.binary64 m e n f).2.1 =
        m * 2 ^ e / (n * 2 ^ f) := by
  have hle : (divCore Format.binary64 m e n f).2.1 ≤ e - f := min_le_left _ _
  refine ⟨(e - f - (divCore Format.binary64 m e n f).2.1).toNat, ?_, ?_, ?_⟩
  · rw [← Nat.shiftLeft_eq]
    rfl
  · rw [← Nat.shiftLeft_eq]
    rfl
  · generalize (divCore Format.binary64 m e n f).2.1 = t at hle
    have hshift : ((e - f - t).toNat : ℤ) = e - f - t := Int.toNat_of_nonneg (by omega)
    rw [Nat.cast_mul, Nat.cast_pow, Nat.cast_ofNat, ← zpow_natCast, hshift, zpow_sub₀ two_ne_zero,
      zpow_sub₀ two_ne_zero]
    field_simp

/-- Quotients are rounded to nearest. -/
theorem div_place {u v : UnpackedFloat} (hu : Canonical u) (hu' : u.isFinite = true)
    (hv' : v.isFinite = true) (hzero : ∀ s, v ≠ .zero s) :
    Canonical (div Format.binary64 u v) ∧
      place? (div Format.binary64 u v) = some (nearestPlace (exact u / exact v)) := by
  rcases v with t | _ | t | ⟨t, n, f, hn⟩
  · simp [isFinite] at hv'
  · simp [isFinite] at hv'
  · exact absurd rfl (hzero t)
  rcases u with s | _ | s | ⟨s, m, e, hm⟩
  · simp [isFinite] at hu'
  · simp [isFinite] at hu'
  · exact ⟨trivial, by simp [div, exact, place?]⟩
  obtain ⟨k, hmantissa, haccuracy, hvalue⟩ := divCore_value m n e f
  have hdigit := divCore_le_lastDigit e f hm hn
  have hpos : (0 : ℚ) < (m * 2 ^ k : ℕ) / n := by positivity
  obtain ⟨hcanonical, hplace⟩ := (reads_div (m * 2 ^ k) hn).roundWithAccuracy_place hpos (s / t)
    (e := (divCore Format.binary64 m e n f).2.1) (by rwa [hvalue])
  rw [← hmantissa, ← haccuracy] at hcanonical hplace
  refine ⟨hcanonical, hplace.trans ?_⟩
  have hexact : exact (.finite s m e hm) / exact (.finite t n f hn) =
      signed (s / t) (m * 2 ^ e / (n * 2 ^ f)) := by
    rw [exact_finite, exact_finite]
    cases s <;> cases t
    · exact neg_div_neg_eq _ _
    · exact neg_div _ _
    · exact div_neg _
    · rfl
  rw [hvalue, hexact, nearestPlace_signed _ (by positivity)]

theorem value_ne_zero {y : Float} (h : Scalar.same y 0.0 = false) (s : Sign) : value y ≠ .zero s := by
  intro hs
  rw [Bool.eq_false_iff, ne_eq, same_zero_iff, hs] at h
  exact h rfl

theorem place?_div {x y : Float} (hx : (value x).isFinite = true) (hy : (value y).isFinite = true)
    (hzero : Scalar.same y 0.0 = false) :
    place? (value (x / y)) = some (clip (nearestPlace (exact (value x) / exact (value y)))) := by
  obtain ⟨hcanonical, hplace⟩ := div_place (canonical_value x) hx hy (value_ne_zero hzero)
  show place? (value (.ofModel (.pack (div Format.binary64 (value x) (value y))))) = _
  rw [value_pack hcanonical, place?_settle hcanonical, hplace]
  rfl

/-- Only finite numbers have a finite quotient. -/
theorem isFinite_of_div {x y : Float} (h : (value (x / y)).isFinite = true) :
    (value x).isFinite = true := by
  have hquotient : (div Format.binary64 (value x) (value y)).isFinite = true :=
    isFinite_of_value_pack h
  clear h
  generalize value x = u, value y = v at hquotient ⊢
  rcases u with ⟨_ | _⟩ | _ | s | ⟨s, m, e, hm⟩ <;>
    rcases v with ⟨_ | _⟩ | _ | t | ⟨t, n, f, hn⟩ <;>
    first | rfl | exact absurd hquotient Bool.false_ne_true

theorem clip_mono {p q : ℤ} (h : p ≤ q) : clip p ≤ clip q := by
  unfold clip
  omega

/-- A finite number divided by one or more stays finite. -/
theorem isFinite_div {x y : Float} (hx : (value x).isFinite = true) (hy : (value y).isFinite = true)
    (hone : 1 ≤ exact (value y)) (hzero : Scalar.same y 0.0 = false) :
    (value (x / y)).isFinite = true := by
  obtain ⟨p, hp, hlow, hhigh⟩ := isFinite_value_iff.mp hx
  obtain rfl : nearestPlace (exact (value x)) = p := Option.some.inj ((place?_value hx).symm.trans hp)
  refine isFinite_value_iff.mpr ⟨_, place?_div hx hy hzero, ?_⟩
  have hpos : 0 < exact (value y) := one_pos.trans_le hone
  have hinfinity : (0 : ℤ) < infinityRank := by decide
  rcases le_total 0 (exact (value x)) with hsign | hsign
  · have hlow := nearestPlace_mono (div_nonneg hsign hpos.le)
    have hhigh := nearestPlace_mono (div_le_self hsign hone)
    rw [nearestPlace_zero] at hlow
    unfold clip
    omega
  · have hle : exact (value x) ≤ exact (value x) / exact (value y) := by
      rw [le_div_iff₀ hpos]
      exact mul_le_of_one_le_right hsign hone
    have hlow := nearestPlace_mono hle
    have hhigh := nearestPlace_mono (div_nonpos_of_nonpos_of_nonneg hsign hpos.le)
    rw [nearestPlace_zero] at hhigh
    unfold clip
    omega

/-- A positive number is finite or the positive infinity, into which finite numbers go no times. -/
theorem pos_cases {y : Float} (hy : Scalar.lt 0.0 y = true) :
    ((value y).isFinite = true ∧ 0 < exact (value y)) ∨
      ∀ x, (value x).isFinite = true → place? (value (x / y)) = some 0 := by
  have hzero := same_zero_of_pos hy
  obtain ⟨a, b, ha, hb, hlt⟩ := scalar_lt_iff.mp hy
  rw [place?_zero, Option.some.injEq] at ha
  subst ha
  cases hfinite : (value y).isFinite with
  | true =>
    refine .inl ⟨rfl, ?_⟩
    by_contra hle
    have hmono := nearestPlace_mono (not_lt.mp hle)
    rw [nearestPlace_zero] at hmono
    have := Option.some.inj ((place?_value hfinite).symm.trans hb)
    omega
  | false =>
    refine .inr fun x hx => ?_
    show place? (value (.ofModel (.pack (div Format.binary64 (value x) (value y))))) = _
    generalize value x = u at hx
    generalize value y = v at hb hfinite
    rcases v with t | _ | t | ⟨t, n, f, hn⟩ <;> try simp [isFinite] at hfinite
    · rcases u with s | _ | s | ⟨s, m, e, hm⟩ <;> try simp [isFinite] at hx
      · exact congrArg place? (value_pack (u := .zero (s / t)) trivial)
      · exact congrArg place? (value_pack (u := .zero (s / t)) trivial)
    · simp [place?] at hb

/-- Division by a positive number keeps the order of finite numbers. -/
theorem scalar_le_div {x x' y : Float} (hx : (value x).isFinite = true)
    (hx' : (value x').isFinite = true) (hy : Scalar.lt 0.0 y = true)
    (hle : Scalar.le x x' = true) : Scalar.le (x / y) (x' / y) = true := by
  rcases pos_cases hy with ⟨hfinite, hpos⟩ | hinfinite
  · have hzero := same_zero_of_pos hy
    refine scalar_le_iff.mpr ⟨_, _, place?_div hx hfinite hzero, place?_div hx' hfinite hzero, ?_⟩
    have hexact := exact_le_of_scalar_le hx hx' hle
    exact clip_mono (nearestPlace_mono (div_le_div_of_nonneg_right hexact hpos.le))
  · exact scalar_le_iff.mpr ⟨0, 0, hinfinite x hx, hinfinite x' hx', le_rfl⟩

/-- The order of differences. -/
theorem scalar_le_sub {x x' y y' : Float} (hx : (value x).isFinite = true)
    (hx' : (value x').isFinite = true) (hy : (value y).isFinite = true)
    (hy' : (value y').isFinite = true) (hle : Scalar.le x x' = true)
    (hle' : Scalar.le y' y = true) : Scalar.le (x - y) (x' - y') = true := by
  have hx₀ := exact_le_of_scalar_le hx hx' hle
  have hy₀ := exact_le_of_scalar_le hy' hy hle'
  exact scalar_le_iff.mpr ⟨_, _, place?_sub hx hy, place?_sub hx' hy',
    clip_mono (nearestPlace_mono (by linarith))⟩

/-- The order of products of numbers that are not negative. -/
theorem scalar_le_mul {x x' y y' : Float} (hx : (value x).isFinite = true)
    (hx' : (value x').isFinite = true) (hy : (value y).isFinite = true)
    (hy' : (value y').isFinite = true) (hx₀ : NotNegative (value x)) (hy₀ : NotNegative (value y))
    (hle : Scalar.le x x' = true) (hle' : Scalar.le y y' = true) :
    Scalar.le (x * y) (x' * y') = true := by
  have hxle := exact_le_of_scalar_le hx hx' hle
  have hyle := exact_le_of_scalar_le hy hy' hle'
  refine scalar_le_iff.mpr ⟨_, _, place?_mul hx hy, place?_mul hx' hy',
    clip_mono (nearestPlace_mono ?_)⟩
  exact mul_le_mul hxle hyle (exact_nonneg hy₀) ((exact_nonneg hx₀).trans hxle)

end TileWorld.Double
