import TileWorld.Proofs.Number.Stored

/-! Between doubles and integers. Whole parts are floors, and a share of an integer lies between
zero and the integer, as long as the integer is a double. -/
namespace TileWorld.Double
open Float.Model (UnpackedFloat Format)
open Float.Model.UnpackedFloat

/-- Whether a sign is the negative one. -/
def isNegative : Sign → Bool
  | .negative => true
  | .positive => false

theorem signBit_eq (b : UInt64) :
    (b >>> 63 == 1) = isNegative (Sign.ofBitVec (@unpackSign Format.binary64 b.toBitVec)) := by
  have hword : (b >>> 63).toNat = (@unpackSign Format.binary64 b.toBitVec).toNat := by
    rw [toNat_unpackSign, UInt64.toNat_shiftRight]
    show b.toNat >>> 63 = _
    rw [Nat.shiftRight_eq_div_pow]
    rfl
  have hone : (b >>> 63 == 1) = decide ((b >>> 63).toNat = 1) := by
    rw [Bool.eq_iff_iff, beq_iff_eq, decide_eq_true_iff, ← UInt64.toNat_inj]
    rfl
  rw [hone, hword]
  rcases BitVec.eq_zero_or_eq_one (@unpackSign Format.binary64 b.toBitVec) with h | h
  · rw [h]
    rfl
  · rw [h]
    rfl

/-- The fields that a double is read by are those of its word. -/
theorem ofFloat_eq (x : Float) : ∃ s field fraction, value x = ofFields s field fraction ∧
    Dyadic.ofFloat x =
      if field = 0 then ⟨isNegative s, fraction, -1074⟩
      else ⟨isNegative s, fraction + 2 ^ 52, field - 1075⟩ := by
  refine ⟨_, _, _, unpack_eq x.toBits.toBitVec, ?_⟩
  rw [toNat_unpackExponent, toNat_unpackMantissa]
  have hfield : ((x.toBits >>> 52) &&& 0x7ff).toNat = x.toBits.toBitVec.toNat / 2 ^ 52 % 2 ^ 11 := by
    rw [UInt64.toNat_and, UInt64.toNat_shiftRight]
    show (x.toBits.toNat >>> 52) &&& (2 ^ 11 - 1) = _
    rw [Nat.and_two_pow_sub_one_eq_mod, Nat.shiftRight_eq_div_pow]
    rfl
  have hfraction : (x.toBits &&& 0xfffffffffffff).toNat = x.toBits.toBitVec.toNat % 2 ^ 52 := by
    rw [UInt64.toNat_and]
    show x.toBits.toNat &&& (2 ^ 52 - 1) = _
    rw [Nat.and_two_pow_sub_one_eq_mod]
    rfl
  unfold Dyadic.ofFloat
  dsimp only
  rw [hfield, hfraction, signBit_eq]
  rfl

theorem ofFloat_finite {x : Float} {s : Sign} {m : ℕ} {e : ℤ} {hm : 0 < m}
    (h : value x = .finite s m e hm) : Dyadic.ofFloat x = ⟨isNegative s, m, e⟩ := by
  obtain ⟨s', field, fraction, hx, hread⟩ := ofFloat_eq x
  rw [hread]
  rw [h] at hx
  unfold ofFields at hx
  split_ifs at hx with hlast hinfinity hfirst hzero
  · obtain ⟨rfl, rfl, rfl⟩ : s = s' ∧ m = fraction ∧ e = -1074 := by simpa using hx
    rw [if_pos hfirst]
  · obtain ⟨rfl, rfl, rfl⟩ : s = s' ∧ m = 2 ^ 52 + fraction ∧ e = field - 1075 := by simpa using hx
    rw [if_neg hfirst, Nat.add_comm]

theorem ofFloat_zero {x : Float} {s : Sign} (h : value x = .zero s) :
    Dyadic.ofFloat x = ⟨isNegative s, 0, -1074⟩ := by
  obtain ⟨s', field, fraction, hx, hread⟩ := ofFloat_eq x
  rw [hread]
  rw [h] at hx
  unfold ofFields at hx
  split_ifs at hx with hlast hinfinity hfirst hzero
  obtain rfl : s = s' := by simpa using hx
  rw [if_pos hfirst, hzero]

theorem floor_zpow (m : ℕ) (e : ℤ) :
    ((if 0 ≤ e then m <<< e.toNat else m >>> (-e).toNat : ℕ) : ℤ) = ⌊(m : ℚ) * 2 ^ e⌋ := by
  by_cases he : 0 ≤ e
  · obtain ⟨k, rfl⟩ := Int.eq_ofNat_of_zero_le he
    rw [if_pos he, Int.toNat_natCast, Nat.shiftLeft_eq, zpow_natCast]
    exact_mod_cast (Int.floor_natCast (R := ℚ) (m * 2 ^ k)).symm
  · obtain ⟨k, hk⟩ := Int.eq_ofNat_of_zero_le (show 0 ≤ -e by omega)
    obtain rfl : e = -k := by omega
    rw [if_neg he, neg_neg, Int.toNat_natCast, Nat.shiftRight_eq_div_pow, zpow_neg, zpow_natCast,
      ← div_eq_mul_inv]
    have := Rat.floor_intCast_div_natCast m (2 ^ k)
    push_cast at this ⊢
    exact this.symm

/-- The integer part of a number that is not negative is its floor. -/
theorem truncate_ofFloat {x : Float} (hfinite : (value x).isFinite = true)
    (hx : NotNegative (value x)) : (Dyadic.ofFloat x).truncate = ⌊exact (value x)⌋ := by
  cases h : value x with
  | notANumber => simp [h, isFinite] at hfinite
  | infinity s => simp [h, isFinite] at hfinite
  | zero s =>
    rw [ofFloat_zero h]
    show _ = ⌊(0 : ℚ)⌋
    rw [Int.floor_zero]
    cases s <;> rfl
  | finite s m e hm =>
    cases s with
    | negative => simp [h, NotNegative] at hx
    | positive =>
      rw [ofFloat_finite h, exact_finite, signed, ← floor_zpow]
      rfl

/-- Every finite number is truncated, and no other one. -/
theorem truncate?_eq_ok {x : Float} {k : ℤ} : Scalar.truncate? x = .ok k ↔
    (value x).isFinite = true ∧ (Dyadic.ofFloat x).truncate = k := by
  have hnan : x.isNaN = (value x).isNaN := rfl
  have hinf : x.isInf = (value x).isInf := rfl
  show (if x.isNaN then .error .notANumber else if x.isInf then .error .overflow
    else .ok (Dyadic.ofFloat x).truncate : Except Fault ℤ) = .ok k ↔ _
  rw [hnan, hinf]
  cases value x <;> simp [isNaN, isInf, isFinite]

theorem ofInt?_eq_ok {n : ℕ} {x : Float} : Scalar.ofInt? (n : ℤ) = .ok x ↔
    nearest n < infinityRank ∧ Float.ofNat n = x := by
  have hplace := place?_ofNat n
  have hfinite : (value (Float.ofNat n)).isFinite = true ↔ nearest n < infinityRank := by
    rw [isFinite_value_iff, hplace]
    simp only [Option.some.injEq, exists_eq_left', clip]
    have hinfinity : 0 < infinityRank := by decide
    omega
  have hinf : (Float.ofNat n).isInf = !(value (Float.ofNat n)).isFinite := by
    show (value (Float.ofNat n)).isInf = _
    cases h : value (Float.ofNat n) <;> simp_all [place?, isInf, isFinite]
  show (if (Float.ofNat n).isInf then .error .overflow
    else .ok (Float.ofNat n) : Except Fault Float) = .ok x ↔ _
  rw [hinf, ← hfinite]
  cases (value (Float.ofNat n)).isFinite <;> simp

/-- An integer below one that is a double as well rounds to a double. -/
theorem exists_ofInt?_of_le {m n : ℤ} (hm : 0 ≤ m) (hmn : m ≤ n) {y : Float}
    (h : Scalar.ofInt? n = .ok y) : ∃ x : Float, Scalar.ofInt? m = .ok x := by
  obtain ⟨m, rfl⟩ := Int.eq_ofNat_of_zero_le hm
  obtain ⟨n, rfl⟩ := Int.eq_ofNat_of_zero_le (hm.trans hmn)
  obtain ⟨hlt, -⟩ := ofInt?_eq_ok.mp h
  have hle : nearest (m : ℚ) ≤ nearest (n : ℚ) := nearest_mono (by exact_mod_cast hmn)
  exact ⟨_, ofInt?_eq_ok.mpr ⟨hle.trans_lt hlt, rfl⟩⟩

/-- No positive integer rounds to zero. -/
theorem same_zero_of_ofInt? {n : ℤ} (hn : 0 < n) {x : Float} (h : Scalar.ofInt? n = .ok x) :
    Scalar.same x 0.0 = false := by
  obtain ⟨n, rfl⟩ := Int.eq_ofNat_of_zero_le hn.le
  obtain ⟨hlt, rfl⟩ := ofInt?_eq_ok.mp h
  have hone := nearest_two_zpow (k := 0) (by norm_num)
  have hpos := rank_pos (m := 2 ^ 52) (by norm_num) (0 - 52)
  have hle : nearest (2 ^ (0 : ℤ)) ≤ nearest (n : ℚ) := nearest_mono (by exact_mod_cast hn)
  rw [Bool.eq_false_iff, ne_eq, same_zero_iff, place?_ofNat, Option.some.injEq, clip]
  omega

theorem isWeight_notNegative {x : Float} (h : Scalar.IsWeight x) : NotNegative (value x) := by
  obtain ⟨a, b, ha, hb, hle⟩ := scalar_le_iff.mp h
  rw [place?_zero, Option.some.injEq] at ha
  exact (notNegative_iff hb).mpr (by omega)

theorem ofNat_notNegative (n : ℕ) : NotNegative (value (Float.ofNat n)) := by
  refine (notNegative_iff (place?_ofNat n)).mpr ?_
  unfold clip
  have hinfinity : (0 : ℤ) < infinityRank := by decide
  omega

theorem isShare_exact {x : Float} (h : Scalar.IsShare x) :
    (value x).isFinite = true ∧ 0 ≤ exact (value x) ∧ exact (value x) ≤ 1 := by
  obtain ⟨hlow, hhigh⟩ := h
  have hnonneg := isWeight_notNegative hlow
  obtain ⟨a, b, ha, hb, hle⟩ := scalar_le_iff.mp hhigh
  have hone := rank_lt_infinityRank (m := 2 ^ 52) (e := -52) (by norm_num) (by norm_num)
  have hb' := hb
  rw [place?_one, Option.some.injEq] at hb'
  have ha₀ := (notNegative_iff ha).mp hnonneg
  refine ⟨isFinite_value_iff.mpr ⟨a, ha, by omega, by omega⟩, exact_nonneg hnonneg, ?_⟩
  rw [← exact_one]
  exact exact_le_of_place? (canonical_value x) (canonical_value 1.0) hnonneg trivial rfl ha hb hle

/-- What is left of a whole after a share is taken away. -/
theorem one_sub_notNegative {x : Float} (h : Scalar.IsShare x) : NotNegative (value (1.0 - x)) := by
  obtain ⟨hfinite, -, hle⟩ := isShare_exact h
  have hnonneg := isWeight_notNegative h.1
  refine value_pack_notNegative (u := sub Format.binary64 (value 1.0) (value x)) ?_
  rw [value_one]
  rcases hx : value x with s | _ | s | ⟨_ | _, m, e, hm⟩
  · simp [hx, isFinite] at hfinite
  · simp [hx, isFinite] at hfinite
  · trivial
  · simp [hx, NotNegative] at hnonneg
  · refine sub_notNegative _ hm ?_
    rw [hx, exact_finite, signed] at hle
    exact hle.trans_eq (by norm_num)

theorem add_float_notNegative {x y : Float} (hx : NotNegative (value x)) (hy : NotNegative (value y)) :
    NotNegative (value (x + y)) := value_pack_notNegative (add_notNegative hx hy)

theorem mul_float_notNegative {x y : Float} (hx : NotNegative (value x)) (hy : NotNegative (value y)) :
    NotNegative (value (x * y)) := value_pack_notNegative (mul_notNegative hx hy)

theorem div_float_notNegative {x y : Float} (hx : NotNegative (value x)) (hy : NotNegative (value y))
    (hzero : Scalar.same y 0.0 = false) : NotNegative (value (x / y)) := by
  refine value_pack_notNegative (div_notNegative hx hy fun s hs => ?_)
  have hs : value y = .zero s := hs
  rw [Bool.eq_false_iff, ne_eq, same_zero_iff, hs] at hzero
  exact hzero rfl

theorem scale?_eq_ok {n : ℕ} {x : Float} {k : ℤ} : Scalar.scale? (n : ℤ) x = .ok k ↔
    nearest n < infinityRank ∧ (value (Float.ofNat n * x)).isFinite = true ∧
      (Dyadic.ofFloat (Float.ofNat n * x)).truncate = k := by
  simp only [Scalar.scale?, bind_eq_ok, ofInt?_eq_ok, truncate?_eq_ok]
  constructor
  · rintro ⟨y, ⟨hn, rfl⟩, h⟩
    exact ⟨hn, h⟩
  · rintro ⟨hn, h⟩
    exact ⟨_, ⟨hn, rfl⟩, h⟩

/-- A scaled number that is not negative has no negative whole part. -/
theorem scale?_nonneg {n : ℤ} (hn : 0 ≤ n) {x : Float} (hx : NotNegative (value x)) {k : ℤ}
    (h : Scalar.scale? n x = .ok k) : 0 ≤ k := by
  obtain ⟨n, rfl⟩ := Int.eq_ofNat_of_zero_le hn
  obtain ⟨-, hfinite, rfl⟩ := scale?_eq_ok.mp h
  have hy := mul_float_notNegative (ofNat_notNegative n) hx
  rw [truncate_ofFloat hfinite hy]
  exact Int.floor_nonneg.mpr (exact_nonneg hy)

/-- Integers of up to 53 digits are exact, up to the next power of two. -/
theorem exists_canonical_nat {n : ℕ} (hn : 0 < n) (hn' : n ≤ 2 ^ 53) :
    ∃ (m : ℕ) (e : ℤ), 2 ^ 52 ≤ m ∧ m < 2 ^ 53 ∧ -1074 ≤ e ∧ (n : ℚ) = m * 2 ^ e := by
  rcases hn'.eq_or_lt with rfl | hn'
  · exact ⟨2 ^ 52, 1, by norm_num, by norm_num, by norm_num, by norm_num⟩
  have hlog : n.log2 ≤ 52 := by
    have := (Nat.log2_lt hn.ne').mpr hn'
    omega
  have hpow : 2 ^ n.log2 * 2 ^ (52 - n.log2) = 2 ^ 52 := by
    rw [← pow_add]
    congr 1
    omega
  refine ⟨n * 2 ^ (52 - n.log2), -((52 - n.log2 : ℕ) : ℤ), ?_, ?_, by omega, ?_⟩
  · rw [← hpow]
    exact Nat.mul_le_mul_right _ (Nat.log2_self_le hn.ne')
  · have := Nat.mul_lt_mul_of_pos_right (Nat.lt_log2_self (n := n))
      (Nat.two_pow_pos (52 - n.log2))
    rw [pow_succ, mul_right_comm, hpow] at this
    exact this
  · rw [zpow_neg, zpow_natCast]
    push_cast
    field_simp

theorem exact_ofNat {n : ℕ} (hn : n ≤ 2 ^ 53) : exact (value (Float.ofNat n)) = n := by
  have hplace := place?_ofNat_of_le (n := n) (by omega)
  rcases n.eq_zero_or_pos with rfl | hpos
  · rfl
  · obtain ⟨m, e, hm, hm', he, hvalue⟩ := exists_canonical_nat hpos hn
    have hm₀ : 0 < m := by omega
    rw [hvalue, nearest_exact hm₀ hm' he (Or.inl hm)] at hplace
    have hfinite := isFinite_ofNat (n := n) (by omega)
    have hcanonical : Canonical (.finite .positive m e hm₀) := ⟨hm', he, Or.inl hm⟩
    rw [hvalue]
    refine le_antisymm ?_ ?_
    · exact exact_le_of_place? (v := .finite .positive m e hm₀) (canonical_value _) hcanonical
        (ofNat_notNegative n) trivial rfl hplace rfl le_rfl
    · exact exact_le_of_place? (u := .finite .positive m e hm₀) hcanonical (canonical_value _)
        trivial (ofNat_notNegative n) hfinite rfl hplace le_rfl

/-- A share of an integer stands between zero and the integer. -/
theorem place?_mul_share {n : ℕ} (hn : n ≤ 2 ^ 63) {x : Float} (hx : Scalar.IsShare x) :
    ∃ p, place? (value (Float.ofNat n * x)) = some p ∧ 0 ≤ p ∧ p ≤ nearest n := by
  obtain ⟨hfinite, hx₀, hx₁⟩ := isShare_exact hx
  have hlt := nearest_nat_lt hn
  have hplace := place?_value (isFinite_ofNat hn)
  rw [place?_ofNat_of_le hn, Option.some.injEq] at hplace
  have hn₀ := exact_nonneg (ofNat_notNegative n)
  have hlow := nearestPlace_mono (mul_nonneg hn₀ hx₀)
  have hhigh := nearestPlace_mono (mul_le_of_le_one_right hn₀ hx₁)
  rw [nearestPlace_zero] at hlow
  have hproduct := place?_mul (isFinite_ofNat hn) hfinite
  rw [clip_of_lt (by omega) (by omega)] at hproduct
  exact ⟨_, hproduct, hlow, by omega⟩

/-- A share of an integer that is a double is no more than the integer. -/
theorem scale?_share_le {n : ℕ} (hn : n ≤ 2 ^ 63) (hexact : exact (value (Float.ofNat n)) = n)
    {x : Float} (hx : Scalar.IsShare x) {k : ℤ} (h : Scalar.scale? (n : ℤ) x = .ok k) : k ≤ n := by
  obtain ⟨-, hfinite, rfl⟩ := scale?_eq_ok.mp h
  obtain ⟨p, hp, hp₀, hple⟩ := place?_mul_share hn hx
  have hnonneg := (notNegative_iff hp).mpr hp₀
  have hbelow := exact_le_of_place? (canonical_value _) (canonical_value _) hnonneg
    (ofNat_notNegative n) (isFinite_ofNat hn) hp (place?_ofNat_of_le hn) hple
  rw [truncate_ofFloat hfinite hnonneg]
  rw [hexact] at hbelow
  exact Int.floor_le_iff.mpr (by push_cast; linarith)

/-- A share of an integer of the machine has a whole part, no more than the integer if that is a
double. -/
theorem exists_scale?_share {n : ℤ} (hn : 0 ≤ n) (hn' : n ≤ 2 ^ 63) {x : Float}
    (hx : Scalar.IsShare x) :
    ∃ k, Scalar.scale? n x = .ok k ∧ 0 ≤ k ∧ (n ≤ 2 ^ 53 → k ≤ n) := by
  obtain ⟨n, rfl⟩ := Int.eq_ofNat_of_zero_le hn
  have hn' : n ≤ 2 ^ 63 := by exact_mod_cast hn'
  have hlt := nearest_nat_lt hn'
  obtain ⟨p, hp, hp₀, hple⟩ := place?_mul_share hn' hx
  have hfinite := isFinite_value_iff.mpr ⟨p, hp, by omega, by omega⟩
  have hnonneg := (notNegative_iff hp).mpr hp₀
  have hscale := scale?_eq_ok.mpr ⟨hlt, hfinite, rfl⟩
  have hk : 0 ≤ (Dyadic.ofFloat (Float.ofNat n * x)).truncate := by
    rw [truncate_ofFloat hfinite hnonneg]
    exact Int.floor_nonneg.mpr (exact_nonneg hnonneg)
  exact ⟨_, hscale, hk, fun hsmall =>
    scale?_share_le hn' (exact_ofNat (by exact_mod_cast hsmall)) hx hscale⟩

end TileWorld.Double
