import TileWorld.Proofs.Number.Exceptions

/-! Weights and their shares of a total. A weight is no more than a sum that it is part of, so that
dividing it by the sum leaves a share; and however many shares are added up, their sum stays where
doubles still count in whole steps. -/
namespace TileWorld.Double
open Float.Model (UnpackedFloat Format)
open Float.Model.UnpackedFloat

theorem isWeight_iff {x : Float} :
    Scalar.IsWeight x ↔ ∃ p, place? (value x) = some p ∧ 0 ≤ p := by
  unfold Scalar.IsWeight
  rw [scalar_le_iff]
  constructor
  · rintro ⟨a, p, ha, hp, hle⟩
    rw [place?_zero, Option.some.injEq] at ha
    exact ⟨p, hp, by omega⟩
  · rintro ⟨p, hp, hle⟩
    exact ⟨0, p, place?_zero, hp, hle⟩

/-- A weight is positive or it is zero. -/
theorem isWeight_pos_iff {x : Float} (h : Scalar.IsWeight x) :
    Scalar.lt 0.0 x = true ↔ Scalar.le x 0.0 = false :=
  (not_le_iff_lt rfl (isNaN_of_le h).2).symm

theorem isWeight_le_refl {x : Float} (h : Scalar.IsWeight x) : Scalar.le x x = true := by
  obtain ⟨p, hp, -⟩ := isWeight_iff.mp h
  exact scalar_le_iff.mpr ⟨p, p, hp, hp, le_rfl⟩

/-- A weight is finite or the positive infinity. -/
theorem isWeight_cases {x : Float} (h : Scalar.IsWeight x) :
    (value x).isFinite = true ∨ value x = .infinity .positive := by
  obtain ⟨p, hp, hpos⟩ := isWeight_iff.mp h
  rcases hv : value x with ⟨_ | _⟩ | _ | s | ⟨s, m, e, hm⟩
  · rw [hv] at hp
    have hinfinity : (0 : ℤ) < infinityRank := by decide
    have : -(infinityRank : ℤ) = p := Option.some.inj hp
    omega
  · exact .inr rfl
  · rw [hv] at hp
    cases hp
  · exact .inl rfl
  · exact .inl rfl

/-- A finite number that is not negative. -/
structure Weighs (x : Float) : Prop where
  weight : Scalar.IsWeight x
  finite : (value x).isFinite = true

theorem Weighs.exact_nonneg {x : Float} (h : Weighs x) : 0 ≤ exact (value x) :=
  Double.exact_nonneg (isWeight_notNegative h.weight)

/-- A sum of weights is no less than either of them. -/
theorem isWeight_add {x y : Float} (hx : Scalar.IsWeight x) (hy : Weighs y) :
    Scalar.IsWeight (x + y) ∧ Scalar.le x (x + y) = true ∧ Scalar.le y (x + y) = true := by
  obtain ⟨p, hp, hp₀⟩ := isWeight_iff.mp hx
  obtain ⟨q, hq, hq₀⟩ := isWeight_iff.mp hy.weight
  obtain ⟨q', hq', -, hqhigh⟩ := isFinite_value_iff.mp hy.finite
  obtain rfl : q = q' := Option.some.inj (hq.symm.trans hq')
  have hsum : ∃ r, place? (value (x + y)) = some r ∧ p ≤ r ∧ q ≤ r := by
    rcases isWeight_cases hx with hfinite | hinfinite
    · obtain ⟨p', hp', -, hphigh⟩ := isFinite_value_iff.mp hfinite
      obtain rfl : p = p' := Option.some.inj (hp.symm.trans hp')
      have hx₀ := exact_nonneg (isWeight_notNegative hx)
      have hpq := Option.some.inj ((place?_value hfinite).symm.trans hp)
      have hqp := Option.some.inj ((place?_value hy.finite).symm.trans hq)
      have hple := nearestPlace_mono (le_add_of_nonneg_right (a := exact (value x)) hy.exact_nonneg)
      have hqle := nearestPlace_mono (le_add_of_nonneg_left (a := exact (value y)) hx₀)
      refine ⟨_, place?_add hfinite hy.finite, ?_⟩
      unfold clip
      omega
    · refine ⟨infinityRank, ?_, ?_, hqhigh.le⟩
      · have hfinite := hy.finite
        show place? (value (.ofModel (.pack (add Format.binary64 (value x) (value y))))) = _
        rw [hinfinite]
        generalize value y = v at hfinite
        cases v with
        | notANumber => cases hfinite
        | infinity s => cases hfinite
        | zero s => exact congrArg place? (value_pack (u := .infinity .positive) trivial)
        | finite s m e hm => exact congrArg place? (value_pack (u := .infinity .positive) trivial)
      · rw [hinfinite] at hp
        exact (Option.some.inj hp).ge
  obtain ⟨r, hr, hpr, hqr⟩ := hsum
  exact ⟨isWeight_iff.mpr ⟨r, hr, by omega⟩, scalar_le_iff.mpr ⟨p, r, hp, hr, hpr⟩,
    scalar_le_iff.mpr ⟨q, r, hq, hr, hqr⟩⟩

/-- No weight is more than the sum of all of them. -/
theorem weights_le_sum {weights : List Float} (h : ∀ w ∈ weights, Weighs w) :
    Scalar.IsWeight (Scalar.sum weights) ∧
      ∀ w ∈ weights, Scalar.le w (Scalar.sum weights) = true := by
  have hfold (total : Float) (htotal : Scalar.IsWeight total) :
      Scalar.IsWeight (weights.foldl (· + ·) total) ∧
        Scalar.le total (weights.foldl (· + ·) total) = true ∧
        ∀ w ∈ weights, Scalar.le w (weights.foldl (· + ·) total) = true := by
    induction weights generalizing total with
    | nil => exact ⟨htotal, isWeight_le_refl htotal, by simp⟩
    | cons w rest ih =>
      rw [List.forall_mem_cons] at h
      obtain ⟨hsum, htotal', hw⟩ := isWeight_add htotal h.1
      obtain ⟨hweight, hle, hrest⟩ := ih h.2 (total + w) hsum
      refine ⟨hweight, scalar_le_trans htotal' hle, ?_⟩
      rw [List.forall_mem_cons]
      exact ⟨scalar_le_trans hw hle, hrest⟩
  obtain ⟨hweight, -, hle⟩ := hfold 0.0 (by decide)
  exact ⟨hweight, hle⟩

/-- A number divided by one that is no less leaves a share. -/
theorem isShare_div {x y : Float} (hx : Weighs x) (hy : Scalar.lt 0.0 y = true)
    (hle : Scalar.le x y = true) : Scalar.IsShare (x / y) := by
  have hone : place? (value 1.0) = some (nearestPlace 1) := exact_one ▸ place?_value rfl
  have hone₀ : 0 ≤ nearestPlace 1 := by
    have := nearestPlace_mono (zero_le_one (α := ℚ))
    rwa [nearestPlace_zero] at this
  rcases pos_cases hy with ⟨hfinite, hpos⟩ | hinfinite
  · have hplace := place?_div hx.finite hfinite (same_zero_of_pos hy)
    have hlow := nearestPlace_mono (div_nonneg hx.exact_nonneg hpos.le)
    have hhigh := nearestPlace_mono
      ((div_le_one hpos).mpr (exact_le_of_scalar_le hx.finite hfinite hle))
    rw [nearestPlace_zero] at hlow
    refine ⟨scalar_le_iff.mpr ⟨0, _, place?_zero, hplace, ?_⟩,
      scalar_le_iff.mpr ⟨_, _, hplace, hone, ?_⟩⟩
    · unfold clip
      omega
    · unfold clip
      omega
  · have hplace := hinfinite x hx.finite
    exact ⟨scalar_le_iff.mpr ⟨0, 0, place?_zero, hplace, le_rfl⟩,
      scalar_le_iff.mpr ⟨0, _, hplace, hone, hone₀⟩⟩

/-- A share of a number is no more than the number. -/
theorem Weighs.share {x y : Float} (hx : Scalar.IsShare x) (hy : Weighs y) :
    Weighs (x * y) ∧ Scalar.le (x * y) y = true := by
  obtain ⟨hfinite, hx₀, hx₁⟩ := isShare_exact hx
  have hplace := place?_mul hfinite hy.finite
  obtain ⟨q, hq, -, hhigh⟩ := isFinite_value_iff.mp hy.finite
  obtain rfl : nearestPlace (exact (value y)) = q :=
    Option.some.inj ((place?_value hy.finite).symm.trans hq)
  have hlow := nearestPlace_mono (mul_nonneg hx₀ hy.exact_nonneg)
  have hle := nearestPlace_mono (mul_le_of_le_one_left hy.exact_nonneg hx₁)
  have hinfinity : (0 : ℤ) < infinityRank := by decide
  rw [nearestPlace_zero] at hlow
  refine ⟨⟨isWeight_iff.mpr ⟨_, hplace, ?_⟩, isFinite_value_iff.mpr ⟨_, hplace, ?_⟩⟩,
    scalar_le_iff.mpr ⟨_, _, hplace, hq, ?_⟩⟩
  · unfold clip
    omega
  · unfold clip
    omega
  · unfold clip
    omega

/-- A number from zero up to where doubles count in whole steps. -/
structure Counts (x : Float) : Prop where
  finite : (value x).isFinite = true
  nonneg : 0 ≤ exact (value x)
  le : exact (value x) ≤ 2 ^ 53

theorem Counts.zero : Counts 0.0 := ⟨rfl, le_rfl, by norm_num [show exact (value 0.0) = 0 from rfl]⟩

/-- Shares do not carry a sum past the end of whole steps: there they are lost to rounding. -/
theorem Counts.add {x y : Float} (hx : Counts x) (hy : Scalar.IsShare y) : Counts (x + y) := by
  obtain ⟨hfinite, hy₀, hy₁⟩ := isShare_exact hy
  have hle : exact (value x) + exact (value y) ≤ ((2 ^ 53 + 1 : ℤ) : ℚ) := by
    push_cast
    linarith [hx.le]
  have hsum := Rounds.add hx.finite hfinite (abs_le.mpr ⟨by linarith [hx.nonneg], by
    refine hle.trans ?_
    norm_num⟩)
  have hsize : Sizable (2 ^ 53 + 1) := by
    unfold Sizable
    norm_num
  have hround : exact (value (Float.ofInt (2 ^ 53 + 1))) = exact (value (Float.ofInt (2 ^ 53))) := by
    refine exact_inj (canonical_value _) (canonical_value _) hsize.rounds.finite rfl ?_
    decide +kernel
  have htop : exact (value (Float.ofInt (2 ^ 53))) = ((2 ^ 53 : ℤ) : ℚ) := exact_ofInt (by norm_num)
  refine ⟨hsum.finite, hsum.nonneg (add_nonneg hx.nonneg hy₀), ?_⟩
  have hmono := hsum.mono hsize.rounds hle
  rw [hround, htop] at hmono
  exact_mod_cast hmono

/-- An integer that is a double has a whole multiple. -/
theorem Counts.exists_scale? {n : ℤ} (hn : 0 ≤ n) (hn' : n ≤ 2 ^ 53) {x : Float} (hx : Counts x) :
    ∃ k, Scalar.scale? n x = .ok k := by
  have habs : |n| ≤ 2 ^ 53 := by rwa [abs_of_nonneg hn]
  have hsize : Sizable n := habs.trans (by norm_num)
  have hexact := exact_ofInt habs
  have hnn : (0 : ℚ) ≤ n := by exact_mod_cast hn
  have hn53 : (n : ℚ) ≤ 2 ^ 53 := by exact_mod_cast hn'
  have hproduct : exact (value (Float.ofInt n)) * exact (value x) ≤ 2 ^ 53 * 2 ^ 53 := by
    rw [hexact]
    exact mul_le_mul hn53 hx.le hx.nonneg (by norm_num)
  have hpos : 0 ≤ exact (value (Float.ofInt n)) * exact (value x) := by
    rw [hexact]
    exact mul_nonneg hnn hx.nonneg
  have hrounds := Rounds.mul hsize.rounds.finite hx.finite
    (by rw [abs_of_nonneg hpos]; exact hproduct.trans (by norm_num))
  have hscale : Scalar.scale? n x = .ok (Dyadic.ofFloat (Float.ofInt n * x)).truncate := by
    rw [Scalar.scale?, hsize.ofInt?, ok_bind]
    exact truncate?_eq_ok.mpr ⟨hrounds.finite, rfl⟩
  exact ⟨_, hscale⟩

end TileWorld.Double
