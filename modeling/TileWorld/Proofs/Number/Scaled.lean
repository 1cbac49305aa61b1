import TileWorld.Proofs.Number.Integers

/-! Fractions of integers in doubles, in order. Nothing that is not negative can be added to a number
and make it smaller, a greater fraction of an integer is cut off no earlier, and a share of what was
cut off is no more than that. -/
namespace TileWorld.Double
open Float.Model (UnpackedFloat Format)
open Float.Model.UnpackedFloat

theorem isFinite_of_value_pack {u : UnpackedFloat}
    (h : (value (.ofModel (.pack u))).isFinite = true) : u.isFinite = true := by
  cases u with
  | notANumber =>
    rw [value_pack (u := .notANumber) trivial] at h
    exact h
  | infinity s =>
    rw [value_pack (u := .infinity s) trivial] at h
    exact h
  | zero s => rfl
  | finite s m e hm => rfl

/-- Only finite numbers have a finite product. -/
theorem isFinite_of_mul {x y : Float} (h : (value (x * y)).isFinite = true) :
    (value x).isFinite = true ∧ (value y).isFinite = true := by
  have hproduct : (mul Format.binary64 (value x) (value y)).isFinite = true :=
    isFinite_of_value_pack h
  clear h
  generalize value x = u, value y = v at hproduct ⊢
  rcases u with ⟨_ | _⟩ | _ | s | ⟨s, m, e, hm⟩ <;>
    rcases v with ⟨_ | _⟩ | _ | t | ⟨t, n, f, hn⟩ <;>
    first | exact ⟨rfl, rfl⟩ | exact absurd hproduct Bool.false_ne_true

/-- Only finite numbers have a finite sum. -/
theorem isFinite_of_add {x y : Float} (h : (value (x + y)).isFinite = true) :
    (value x).isFinite = true ∧ (value y).isFinite = true := by
  have hsum : (add Format.binary64 (value x) (value y)).isFinite = true :=
    isFinite_of_value_pack h
  clear h
  generalize value x = u, value y = v at hsum ⊢
  rcases u with ⟨_ | _⟩ | _ | s | ⟨s, m, e, hm⟩ <;>
    rcases v with ⟨_ | _⟩ | _ | t | ⟨t, n, f, hn⟩ <;>
    first | exact ⟨rfl, rfl⟩ | exact absurd hsum Bool.false_ne_true

theorem scalar_le_refl {x : Float} (h : (value x).isFinite = true) : Scalar.le x x = true :=
  scalar_le_iff.mpr ⟨_, _, place?_value h, place?_value h, le_rfl⟩

theorem scalar_le_trans {x y z : Float} (hxy : Scalar.le x y = true) (hyz : Scalar.le y z = true) :
    Scalar.le x z = true := by
  obtain ⟨a, b, ha, hb, hab⟩ := scalar_le_iff.mp hxy
  obtain ⟨b', c, hb', hc, hbc⟩ := scalar_le_iff.mp hyz
  obtain rfl : b = b' := Option.some.inj (hb.symm.trans hb')
  exact scalar_le_iff.mpr ⟨a, c, ha, hc, hab.trans hbc⟩

theorem scalar_le_of_lt {x y : Float} (h : Scalar.lt x y = true) : Scalar.le x y = true := by
  obtain ⟨a, b, ha, hb, hab⟩ := scalar_lt_iff.mp h
  exact scalar_le_iff.mpr ⟨a, b, ha, hb, hab.le⟩

theorem scalar_lt_of_lt_of_le {x y z : Float} (h : Scalar.lt x y = true)
    (h' : Scalar.le y z = true) : Scalar.lt x z = true := by
  obtain ⟨a, b, ha, hb, hab⟩ := scalar_lt_iff.mp h
  obtain ⟨b', c, hb', hc, hbc⟩ := scalar_le_iff.mp h'
  obtain rfl : b = b' := Option.some.inj (hb.symm.trans hb')
  exact scalar_lt_iff.mpr ⟨a, c, ha, hc, hab.trans_le hbc⟩

theorem scalar_lt_of_le_of_lt {x y z : Float} (h : Scalar.le x y = true)
    (h' : Scalar.lt y z = true) : Scalar.lt x z = true := by
  obtain ⟨a, b, ha, hb, hab⟩ := scalar_le_iff.mp h
  obtain ⟨b', c, hb', hc, hbc⟩ := scalar_lt_iff.mp h'
  obtain rfl : b = b' := Option.some.inj (hb.symm.trans hb')
  exact scalar_lt_iff.mpr ⟨a, c, ha, hc, hab.trans_lt hbc⟩

theorem scalar_lt_irrefl (x : Float) : ¬Scalar.lt x x = true := by
  intro h
  obtain ⟨a, b, ha, hb, hab⟩ := scalar_lt_iff.mp h
  exact hab.ne (Option.some.inj (ha.symm.trans hb))

/-- A sum is no smaller than what was added to. -/
theorem scalar_le_add {x y : Float} (hy : NotNegative (value y))
    (h : (value (x + y)).isFinite = true) : Scalar.le x (x + y) = true := by
  obtain ⟨hx', hy'⟩ := isFinite_of_add h
  have hplace := place?_value hx'
  obtain ⟨p, hp, hlow, hhigh⟩ := isFinite_value_iff.mp hx'
  obtain rfl : nearestPlace (exact (value x)) = p := Option.some.inj (hplace.symm.trans hp)
  have hmono : nearestPlace (exact (value x)) ≤ nearestPlace (exact (value x) + exact (value y)) :=
    nearestPlace_mono (le_add_of_nonneg_right (exact_nonneg hy))
  refine scalar_le_iff.mpr ⟨_, _, hplace, place?_add hx' hy', ?_⟩
  unfold clip
  omega

theorem notNegative_of_le {x y : Float} (hx : NotNegative (value x)) (h : Scalar.le x y = true) :
    NotNegative (value y) := by
  obtain ⟨a, b, ha, hb, hab⟩ := scalar_le_iff.mp h
  have := (notNegative_iff ha).mp hx
  exact (notNegative_iff hb).mpr (by omega)

theorem exact_le_of_scalar_le {x y : Float} (hx : (value x).isFinite = true)
    (hy : (value y).isFinite = true) (h : Scalar.le x y = true) :
    exact (value x) ≤ exact (value y) := by
  obtain ⟨a, b, ha, hb, hab⟩ := scalar_le_iff.mp h
  exact (exact_le_iff (canonical_value x) (canonical_value y) hx hy ha hb).mpr hab

/-- A quotient that leaves something of one is finite. -/
theorem isFinite_of_one_sub_pos {q : Float} (hq : NotNegative (value q))
    (h : Scalar.lt 0.0 (1.0 - q) = true) : (value q).isFinite = true := by
  obtain ⟨a, b, ha, hb, hlt⟩ := scalar_lt_iff.mp h
  rw [place?_zero, Option.some.injEq] at ha
  subst ha
  have hb : place? (value (.ofModel (.pack (.sub .binary64 (value 1.0) (value q))))) = some b := hb
  rcases hv : value q with s | _ | s | ⟨s, m, e, hm⟩
  · cases s with
    | negative =>
      rw [hv] at hq
      exact hq.elim
    | positive =>
      rw [hv] at hb
      have hvalue := hb.symm.trans (congrArg place? (value_pack (u := .infinity .negative) trivial))
      have : b = -(infinityRank : ℤ) := Option.some.inj hvalue
      have hinfinity : (0 : ℤ) < infinityRank := by decide
      omega
  · rw [hv] at hb
    cases hb.symm.trans (congrArg place? (value_pack (u := .notANumber) trivial))
  · rfl
  · rfl

/-- Below a finite number there is no other infinity than the negative one. -/
theorem isFinite_of_le {x y : Float} (hx : NotNegative (value x)) (hle : Scalar.le x y = true)
    (hy : (value y).isFinite = true) : (value x).isFinite = true := by
  obtain ⟨a, b, ha, hb, hab⟩ := scalar_le_iff.mp hle
  obtain ⟨p, hp, -, hhigh⟩ := isFinite_value_iff.mp hy
  obtain rfl : b = p := Option.some.inj (hb.symm.trans hp)
  have ha₀ := (notNegative_iff ha).mp hx
  have hinfinity : (0 : ℤ) < infinityRank := by decide
  exact isFinite_value_iff.mpr ⟨a, ha, by omega, by omega⟩

/-- Taking away more leaves no more. -/
theorem scalar_sub_le_sub_left {x y z : Float} (hx : (value x).isFinite = true)
    (hy : (value y).isFinite = true) (hz : (value z).isFinite = true) (h : Scalar.le x y = true) :
    Scalar.le (z - y) (z - x) = true := by
  have hplaces := nearestPlace_mono
    (sub_le_sub_left (exact_le_of_scalar_le hx hy h) (exact (value z)))
  refine scalar_le_iff.mpr ⟨_, _, place?_sub hz hy, place?_sub hz hx, ?_⟩
  unfold clip
  omega

/-- A difference in order is not negative. -/
theorem isWeight_sub {x y : Float} (hx : (value x).isFinite = true) (hy : (value y).isFinite = true)
    (h : Scalar.le y x = true) : Scalar.IsWeight (x - y) := by
  have hexact := exact_le_of_scalar_le hy hx h
  have hplace := nearestPlace_mono (sub_nonneg.mpr hexact)
  rw [nearestPlace_zero] at hplace
  refine scalar_le_iff.mpr ⟨0, _, place?_zero, place?_sub hx hy, ?_⟩
  unfold clip
  omega

theorem isFinite_of_scale? {n k : ℤ} {x : Float} (h : Scalar.scale? n x = .ok k) :
    (value x).isFinite = true := by
  obtain ⟨y, -, hy⟩ := bind_eq_ok.mp h
  exact (isFinite_of_mul (truncate?_eq_ok.mp hy).1).2

/-- A greater fraction of an integer is cut off no earlier. -/
theorem scale?_mono {n k l : ℤ} (hn : 0 ≤ n) {x y : Float} (hx : NotNegative (value x))
    (hle : Scalar.le x y = true) (hk : Scalar.scale? n x = .ok k)
    (hl : Scalar.scale? n y = .ok l) : k ≤ l := by
  obtain ⟨n, rfl⟩ := Int.eq_ofNat_of_zero_le hn
  obtain ⟨-, hfinite, rfl⟩ := scale?_eq_ok.mp hk
  obtain ⟨-, hfinite', rfl⟩ := scale?_eq_ok.mp hl
  obtain ⟨hwhole, hx'⟩ := isFinite_of_mul hfinite
  obtain ⟨-, hy'⟩ := isFinite_of_mul hfinite'
  have hy := notNegative_of_le hx hle
  have hproduct : exact (value (Float.ofNat n)) * exact (value x) ≤
      exact (value (Float.ofNat n)) * exact (value y) :=
    mul_le_mul_of_nonneg_left (exact_le_of_scalar_le hx' hy' hle)
      (exact_nonneg (ofNat_notNegative n))
  have hplaces := nearestPlace_mono hproduct
  have hnonneg := mul_float_notNegative (ofNat_notNegative n) hx
  have hnonneg' := mul_float_notNegative (ofNat_notNegative n) hy
  rw [truncate_ofFloat hfinite hnonneg, truncate_ofFloat hfinite' hnonneg']
  refine Int.floor_le_floor (exact_le_of_place? (canonical_value _) (canonical_value _) hnonneg
    hnonneg' hfinite' (place?_mul hwhole hx') (place?_mul hwhole hy') ?_)
  unfold clip
  omega

/-- A double of 54 digits or more is an integer. -/
theorem floor_exact_of_le {u : UnpackedFloat} (hu : Canonical u) (h : 2 ^ 53 ≤ exact u) :
    (⌊exact u⌋ : ℚ) = exact u := by
  have hzero : ¬(2 : ℚ) ^ 53 ≤ 0 := by norm_num
  rcases u with s | _ | s | ⟨_ | _, m, e, hm⟩
  · exact absurd h hzero
  · exact absurd h hzero
  · exact absurd h hzero
  · have hpos : (0 : ℚ) < m * 2 ^ e := by positivity
    rw [exact_finite, signed] at h
    exact absurd (by linarith) hzero
  · rw [exact_finite, signed] at h ⊢
    have he : 0 ≤ e := by
      by_contra he
      have hpow : (2 : ℚ) ^ e ≤ 1 := zpow_le_one_of_nonpos₀ one_le_two (by omega)
      have hle : (m : ℚ) * 2 ^ e ≤ m := mul_le_of_le_one_right (Nat.cast_nonneg m) hpow
      have hlt : (m : ℚ) < 2 ^ 53 := by exact_mod_cast hu.1
      linarith
    obtain ⟨k, rfl⟩ := Int.eq_ofNat_of_zero_le he
    rw [zpow_natCast]
    exact_mod_cast congrArg (Int.cast (R := ℚ)) (Int.floor_natCast (R := ℚ) (m * 2 ^ k))

/-- The integer part of a double is a double itself. -/
theorem exact_ofNat_of_truncate {x : Float} (hx : (value x).isFinite = true) {n : ℕ}
    (hn : n ≤ 2 ^ 63) (h : (Dyadic.ofFloat x).truncate = n) :
    exact (value (Float.ofNat n)) = n := by
  by_cases hsmall : n ≤ 2 ^ 53
  · exact exact_ofNat hsmall
  rcases le_total (exact (value x)) 0 with hsign | hsign
  · rw [truncate_ofFloat_of_nonpos hx hsign] at h
    have hceil : ⌈exact (value x)⌉ ≤ 0 := Int.ceil_le.mpr (by exact_mod_cast hsign)
    omega
  have hnonneg : NotNegative (value x) :=
    (notNegative_iff (place?_value hx)).mpr (by simpa using nearestPlace_mono hsign)
  rw [truncate_ofFloat hx hnonneg] at h
  have hbig : (2 : ℚ) ^ 53 ≤ exact (value x) := by
    have hfloor : (2 ^ 53 : ℤ) ≤ ⌊exact (value x)⌋ := by omega
    exact_mod_cast Int.le_floor.mp hfloor
  have hwhole : exact (value x) = n := by
    rw [← floor_exact_of_le (canonical_value x) hbig, h, Int.cast_natCast]
  have hplace : place? (value (Float.ofNat n)) = place? (value x) := by
    rw [place?_ofNat_of_le hn, place?_value hx, hwhole, nearestPlace_of_nonneg (Nat.cast_nonneg n)]
  rw [exact_inj (canonical_value _) (canonical_value x) (isFinite_ofNat hn) hx hplace, hwhole]

/-- A share of what a fraction cut off is no more than that. -/
theorem scale?_scale?_le {whole : ℤ} {w : Float} {n : ℕ} (hn : n ≤ 2 ^ 63)
    (hcut : Scalar.scale? whole w = .ok (n : ℤ)) {x : Float} (hx : Scalar.IsShare x) {k : ℤ}
    (h : Scalar.scale? (n : ℤ) x = .ok k) : k ≤ n := by
  obtain ⟨y, -, hy⟩ := bind_eq_ok.mp hcut
  obtain ⟨hfinite, htruncate⟩ := truncate?_eq_ok.mp hy
  exact scale?_share_le hn (exact_ofNat_of_truncate hfinite hn htruncate) hx h

end TileWorld.Double
