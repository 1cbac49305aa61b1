import TileWorld.Proofs.Number.Arithmetic

/-! Sums and differences of doubles taken apart go to the place nearest to the exact one, and finite
numbers have the order of their places. -/
namespace TileWorld.Double
open Float.Model (UnpackedFloat Format)
open Float.Model.UnpackedFloat

@[simp] theorem apply_neg (s : Sign) (n : ℤ) : (-s).apply n = -s.apply n := by
  cases s with
  | negative => exact (neg_neg n).symm
  | positive => rfl

theorem canonical_neg {u : UnpackedFloat} (h : Canonical u) : Canonical u.neg := by
  cases u <;> exact h

theorem fits_neg {u : UnpackedFloat} (h : Fits u) : Fits u.neg := by
  cases u <;> exact h

@[simp] theorem isFinite_neg (u : UnpackedFloat) : u.neg.isFinite = u.isFinite := by
  cases u <;> rfl

theorem exact_neg (u : UnpackedFloat) : exact u.neg = -exact u := by
  cases u <;> simp [exact, neg]

theorem place?_neg (u : UnpackedFloat) : place? u.neg = (place? u).map (-·) := by
  cases u <;> simp [place?, neg]

theorem sub_eq_add (u v : UnpackedFloat) :
    sub Format.binary64 u v = add Format.binary64 u v.neg := by
  rcases u with s | _ | s | ⟨s, m, e, hm⟩ <;> rcases v with t | _ | t | ⟨t, n, f, hn⟩ <;>
    try rfl
  show UnpackedFloat.normalize _ (s.apply _ - t.apply _) _ _ =
    UnpackedFloat.normalize _ (s.apply _ + (-t).apply _) _ _
  rw [apply_neg, Int.sub_eq_add_neg]

theorem signed_apply (s : Sign) (m : ℕ) (q : ℚ) : ((s.apply m : ℤ) : ℚ) * q = signed s (m * q) := by
  cases s with
  | negative => simp [signed, Sign.apply]
  | positive => rfl

theorem exact_decreaseExponent (s : Sign) {m : ℕ} {e t : ℤ} (hm : 0 < m) (ht : t ≤ e) :
    ((s.apply (decreaseExponent m e t).1 : ℤ) : ℚ) * 2 ^ t = exact (.finite s m e hm) := by
  rw [signed_apply, decreaseExponent_value ht, exact_finite]

/-- Sums are rounded to nearest. -/
theorem add_place {u v : UnpackedFloat} (hu : Canonical u) (hv : Canonical v)
    (hu' : u.isFinite = true) (hv' : v.isFinite = true) :
    Canonical (add Format.binary64 u v) ∧
      place? (add Format.binary64 u v) = some (nearestPlace (exact u + exact v)) := by
  rcases u with s | _ | s | ⟨s, m, e, hm⟩
  · simp [isFinite] at hu'
  · simp [isFinite] at hu'
  · rcases v with t | _ | t | ⟨t, n, f, hn⟩
    · simp [isFinite] at hv'
    · simp [isFinite] at hv'
    · cases s <;> cases t <;> exact ⟨trivial, by simp [add, exact, place?]⟩
    · refine ⟨hv, ?_⟩
      have hzero : exact (.zero s) = 0 := rfl
      rw [hzero, zero_add]
      exact nearestPlace_exact hv rfl
  · rcases v with t | _ | t | ⟨t, n, f, hn⟩
    · simp [isFinite] at hv'
    · simp [isFinite] at hv'
    · refine ⟨hu, ?_⟩
      have hzero : exact (.zero t) = 0 := rfl
      rw [hzero, add_zero]
      exact nearestPlace_exact hu rfl
    · have hsum := normalize_place (s.apply (decreaseExponent m e (min e f)).1 +
        t.apply (decreaseExponent n f (min e f)).1) (min e f) .positive
      rwa [Int.cast_add, add_mul, exact_decreaseExponent s hm (min_le_left e f),
        exact_decreaseExponent t hn (min_le_right e f)] at hsum


/-- A place names one finite number, but for the sign of zero. -/
theorem canonical_inj {u v : UnpackedFloat} (hu : Canonical u) (hv : Canonical v)
    (hu' : u.isFinite = true) (hv' : v.isFinite = true) (h : place? u = place? v) :
    u = v ∨ ∃ s t, u = .zero s ∧ v = .zero t := by
  rcases u with s | _ | s | ⟨s, m, e, hm⟩ <;> rcases v with t | _ | t | ⟨t, n, f, hn⟩ <;>
    try simp [isFinite] at hu' hv'
  · exact Or.inr ⟨s, t, rfl, rfl⟩
  · have hpos := rank_pos hn f
    cases t <;> simp [place?, Sign.apply] at h <;> omega
  · have hpos := rank_pos hm e
    cases s <;> simp [place?, Sign.apply] at h <;> omega
  · have hpos := rank_pos hm e
    have hpos' := rank_pos hn f
    have hrank : s = t ∧ rank m e = rank n f := by
      cases s <;> cases t <;> simp [place?, Sign.apply] at h ⊢ <;> omega
    obtain ⟨rfl, hrank⟩ := hrank
    obtain ⟨hm', he, hfull⟩ := hu
    obtain ⟨hn', hf, hfull'⟩ := hv
    unfold rank at hrank
    obtain rfl : e = f := by omega
    obtain rfl : m = n := by omega
    exact Or.inl rfl

theorem exact_inj {u v : UnpackedFloat} (hu : Canonical u) (hv : Canonical v)
    (hu' : u.isFinite = true) (hv' : v.isFinite = true) (h : place? u = place? v) :
    exact u = exact v := by
  rcases canonical_inj hu hv hu' hv' h with rfl | ⟨s, t, rfl, rfl⟩
  · rfl
  · rfl

/-- Finite numbers are ordered as their places are. -/
theorem exact_le_iff {u v : UnpackedFloat} {p q : ℤ} (hu : Canonical u) (hv : Canonical v)
    (hu' : u.isFinite = true) (hv' : v.isFinite = true) (hp : place? u = some p)
    (hq : place? v = some q) : exact u ≤ exact v ↔ p ≤ q := by
  have hp' := (nearestPlace_exact hu hu').symm.trans hp
  have hq' := (nearestPlace_exact hv hv').symm.trans hq
  rw [Option.some.injEq] at hp' hq'
  constructor
  · intro h
    rw [← hp', ← hq']
    exact nearestPlace_mono h
  · intro h
    by_contra hlt
    have hge := nearestPlace_mono (not_le.mp hlt).le
    have heq : p = q := by omega
    refine hlt (exact_inj hu hv hu' hv' ?_).le
    rw [hp, hq, heq]

/-- A finite number is a whole number of the smallest steps between doubles. -/
theorem exists_exact_eq {u : UnpackedFloat} (hu : Canonical u) :
    ∃ k : ℤ, exact u = k * 2 ^ (-1074 : ℤ) := by
  rcases u with s | _ | s | ⟨s, m, e, hm⟩
  · exact ⟨0, by simp [exact]⟩
  · exact ⟨0, by simp [exact]⟩
  · exact ⟨0, by simp [exact]⟩
  · refine ⟨s.apply (decreaseExponent m e (-1074)).1, ?_⟩
    rw [exact_decreaseExponent s hm hu.2.1]

theorem nearest_step : nearest (2 ^ (-1074 : ℤ)) = 1 := by
  have h := nearest_exact (m := 1) (e := -1074) one_pos (by norm_num) le_rfl (Or.inr rfl)
  simpa [rank] using h

/-- No number of the size of a step or more is rounded to zero. -/
theorem nearestPlace_ne_zero {x : ℚ} (h : 2 ^ (-1074 : ℤ) ≤ |x|) : nearestPlace x ≠ 0 := by
  have hpow := two_zpow_pos (-1074)
  have hpos {x : ℚ} (hx : 2 ^ (-1074 : ℤ) ≤ x) : 0 < nearestPlace x := by
    have hmono := nearestPlace_mono hx
    rw [nearestPlace_of_nonneg hpow.le, nearest_step] at hmono
    omega
  rcases le_abs.mp h with h | h
  · exact (hpos h).ne'
  · have hneg := hpos h
    rw [nearestPlace_neg] at hneg
    omega

theorem isFinite_normalize (m e : ℤ) (s : Sign) :
    (UnpackedFloat.normalize Format.binary64 m e s).isFinite = true := by
  have hround (t : Sign) (n : ℕ) (f : ℤ) (a : Accuracy) :
      (roundWithAccuracy Format.binary64 t n f a).isFinite = true := by
    unfold roundWithAccuracy
    dsimp only
    split_ifs <;> rfl
  unfold UnpackedFloat.normalize
  cases compare m 0
  · exact hround _ _ _ _
  · rfl
  · exact hround _ _ _ _

theorem normalize_ne_negative_zero (m : ℤ) {e : ℤ} (he : -1074 ≤ e) :
    UnpackedFloat.normalize Format.binary64 m e .positive ≠ .zero .negative := by
  rcases eq_or_ne m 0 with rfl | hm
  · simp [UnpackedFloat.normalize]
  · intro h
    have hplace := (normalize_place m e .positive).2
    rw [h, place?, eq_comm, Option.some.injEq] at hplace
    refine nearestPlace_ne_zero ?_ hplace
    have hone : (1 : ℚ) ≤ |(m : ℚ)| := by exact_mod_cast Int.one_le_abs hm
    have hstep : (2 : ℚ) ^ (-1074 : ℤ) ≤ 2 ^ e := zpow_le_zpow_right₀ one_le_two he
    rw [abs_mul, abs_of_pos (two_zpow_pos e)]
    exact hstep.trans (le_mul_of_one_le_left (two_zpow_pos e).le hone)

/-- A sum of finite numbers is finite until it is kept in a word, and only two negative zeros make
a negative zero. -/
theorem add_finite {u v : UnpackedFloat} (hu : Canonical u) (hv : Canonical v)
    (hu' : u.isFinite = true) (hv' : v.isFinite = true) :
    (add Format.binary64 u v).isFinite = true ∧
      (v ≠ .zero .negative → add Format.binary64 u v ≠ .zero .negative) := by
  rcases u with s | _ | s | ⟨s, m, e, hm⟩ <;> rcases v with t | _ | t | ⟨t, n, f, hn⟩ <;>
    try simp [isFinite] at hu' hv'
  · cases s <;> cases t <;> simp [add, isFinite]
  · simp [add, isFinite]
  · simp [add, isFinite]
  · exact ⟨isFinite_normalize _ _ _, fun _ => normalize_ne_negative_zero _ (le_min hu.2.1 hv.2.1)⟩

/-- Sums are the same once they are equal as exact numbers. -/
theorem add_eq_add {u v u' v' : UnpackedFloat}
    (hu : Canonical u ∧ u.isFinite = true) (hv : Canonical v ∧ v.isFinite = true)
    (hu' : Canonical u' ∧ u'.isFinite = true) (hv' : Canonical v' ∧ v'.isFinite = true)
    (hzero : v ≠ .zero .negative) (hzero' : v' ≠ .zero .negative)
    (h : exact u + exact v = exact u' + exact v') :
    add Format.binary64 u v = add Format.binary64 u' v' := by
  obtain ⟨hcanonical, hplace⟩ := add_place hu.1 hv.1 hu.2 hv.2
  obtain ⟨hcanonical', hplace'⟩ := add_place hu'.1 hv'.1 hu'.2 hv'.2
  obtain ⟨hfinite, hsign⟩ := add_finite hu.1 hv.1 hu.2 hv.2
  obtain ⟨hfinite', hsign'⟩ := add_finite hu'.1 hv'.1 hu'.2 hv'.2
  have hsame : place? (add Format.binary64 u v) = place? (add Format.binary64 u' v') := by
    rw [hplace, hplace', h]
  rcases canonical_inj hcanonical hcanonical' hfinite hfinite' hsame with heq | ⟨s, t, hs, ht⟩
  · exact heq
  · have hs' := hsign hzero
    have ht' := hsign' hzero'
    cases s <;> cases t <;> simp_all

/-- Different numbers have a difference that is not zero. -/
theorem sub_ne_zero_of_finite {u v : UnpackedFloat} (hu : Canonical u) (hv : Canonical v)
    (hu' : u.isFinite = true) (hv' : v.isFinite = true) (h : place? u ≠ place? v) :
    Canonical (sub Format.binary64 u v) ∧ place? (sub Format.binary64 u v) ≠ some 0 := by
  obtain ⟨k, hk⟩ := exists_exact_eq hu
  obtain ⟨l, hl⟩ := exists_exact_eq hv
  have hne : k - l ≠ 0 := by
    intro hkl
    refine h ?_
    rw [nearestPlace_exact hu hu', nearestPlace_exact hv hv', hk, hl, Int.eq_of_sub_eq_zero hkl]
  have hdiff : exact u + exact v.neg = (k - l : ℤ) * 2 ^ (-1074 : ℤ) := by
    rw [exact_neg, hk, hl, Int.cast_sub, sub_mul, sub_eq_add_neg]
  have hstep : (1 : ℚ) ≤ |((k - l : ℤ) : ℚ)| := by exact_mod_cast Int.one_le_abs hne
  have hpow := two_zpow_pos (-1074)
  obtain ⟨hcanonical, hplace⟩ := add_place hu (canonical_neg hv) hu' (by rwa [isFinite_neg])
  rw [sub_eq_add, hplace, hdiff, ne_eq, Option.some.injEq]
  refine ⟨hcanonical, nearestPlace_ne_zero ?_⟩
  rw [abs_mul, abs_of_pos hpow]
  exact le_mul_of_one_le_left hpow.le hstep

/-- Nor is the difference zero when one of the numbers is not finite. -/
theorem sub_ne_zero {u v : UnpackedFloat} (hu : Canonical u) (hv : Canonical v)
    (h : u.isFinite = true → v.isFinite = true → place? u ≠ place? v) :
    Canonical (sub Format.binary64 u v) ∧ place? (sub Format.binary64 u v) ≠ some 0 := by
  by_cases hfinite : u.isFinite = true ∧ v.isFinite = true
  · exact sub_ne_zero_of_finite hu hv hfinite.1 hfinite.2 (h hfinite.1 hfinite.2)
  · have hinfinity (s : Sign) : place? (.infinity s) ≠ some 0 := by cases s <;> decide
    have hnone : place? .notANumber ≠ some 0 := by decide
    rcases u with s | _ | s | ⟨s, m, e, hm⟩ <;> rcases v with t | _ | t | ⟨t, n, f, hn⟩ <;>
      first
      | exact absurd ⟨rfl, rfl⟩ hfinite
      | exact ⟨trivial, hnone⟩
      | exact ⟨trivial, hinfinity _⟩
      | cases s <;> cases t <;> first | exact ⟨trivial, hnone⟩ | exact ⟨trivial, hinfinity _⟩

end TileWorld.Double
