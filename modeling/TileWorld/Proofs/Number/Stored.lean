import TileWorld.Number.Scalar
import TileWorld.Proofs.Number.Arithmetic
import TileWorld.Proofs.Outcome
import TileWorld.Proofs.Settings.Bounds

/-! What the operations on doubles give, in terms of places and exact values. -/
namespace TileWorld.Double
open Float.Model (UnpackedFloat Format)
open Float.Model.UnpackedFloat

/-- A double taken apart. -/
def value (x : Float) : UnpackedFloat := x.toModel.unpack

theorem canonical_value (x : Float) : Canonical (value x) := canonical_unpack _

theorem fits_value (x : Float) : Fits (value x) := fits_unpack _

theorem value_pack {u : UnpackedFloat} (h : Canonical u) :
    value (.ofModel (.pack u)) = settle u := unpack_pack h

theorem value_pack_notNegative {u : UnpackedFloat} (h : NotNegative u) :
    NotNegative (value (.ofModel (.pack u))) := unpack_pack_notNegative h

theorem scalar_le_iff {x y : Float} : Scalar.le x y = true ↔
    ∃ a b, place? (value x) = some a ∧ place? (value y) = some b ∧ a ≤ b := by
  rw [← le_iff (canonical_value x) (canonical_value y) (fits_value x) (fits_value y)]
  show decide (decide ((value x).le (value y) = true) = true) = true ↔ _
  simp only [decide_eq_true_iff]

theorem scalar_lt_iff {x y : Float} : Scalar.lt x y = true ↔
    ∃ a b, place? (value x) = some a ∧ place? (value y) = some b ∧ a < b := by
  rw [← lt_iff (canonical_value x) (canonical_value y) (fits_value x) (fits_value y)]
  show decide (decide ((value x).lt (value y) = true) = true) = true ↔ _
  simp only [decide_eq_true_iff]

/-- The place of a double that is a number. -/
def place (x : Float) : ℤ := (place? (value x)).getD 0

theorem place?_eq_place {x : Float} (h : x.isNaN = false) : place? (value x) = some (place x) := by
  have hnan : (value x).isNaN = false := h
  unfold place
  cases hx : value x with
  | notANumber => simp [hx, isNaN] at hnan
  | infinity s => rfl
  | zero s => rfl
  | finite s m e hm => rfl

/-- Numbers are compared by their places. -/
theorem scalar_lt_iff_place {x y : Float} (hx : x.isNaN = false) (hy : y.isNaN = false) :
    Scalar.lt x y = true ↔ place x < place y := by
  rw [scalar_lt_iff, place?_eq_place hx, place?_eq_place hy]
  simp

theorem scalar_same_iff_place {x y : Float} (hx : x.isNaN = false) (hy : y.isNaN = false) :
    Scalar.same x y = true ↔ place x = place y := by
  rw [Scalar.same, Bool.and_eq_true, scalar_le_iff, scalar_le_iff, place?_eq_place hx,
    place?_eq_place hy]
  simp only [Option.some.injEq, exists_and_left, exists_eq_left']
  omega

theorem value_one : value 1.0 = .finite .positive (2 ^ 52) (-52) (Nat.two_pow_pos 52) := rfl

theorem exact_one : exact (value 1.0) = 1 := by
  rw [value_one, exact_finite, signed]
  norm_num

@[simp] theorem place?_zero : place? (value 0.0) = some 0 := rfl

theorem place?_one : place? (value 1.0) = some (rank (2 ^ 52) (-52) : ℤ) := rfl

/-- Only zeros stand at place zero. -/
theorem value_of_place?_zero {x : Float} (h : place? (value x) = some 0) :
    ∃ s, value x = .zero s := by
  cases hx : value x with
  | notANumber => simp [hx, place?] at h
  | infinity s => cases s <;> simp [hx, place?, Sign.apply, infinityRank] at h
  | zero s => exact ⟨s, rfl⟩
  | finite s m e hm =>
    have hpos := rank_pos hm e
    rw [hx, place?, Option.some.injEq] at h
    cases s with
    | negative => have : -(rank m e : ℤ) = 0 := h; omega
    | positive => have : (rank m e : ℤ) = 0 := h; omega

theorem same_zero_iff {x : Float} : Scalar.same x 0.0 = true ↔ place? (value x) = some 0 := by
  rw [Scalar.same, Bool.and_eq_true, scalar_le_iff, scalar_le_iff, place?_zero]
  constructor
  · rintro ⟨⟨a, b, ha, hb, hle⟩, ⟨c, d, hc, hd, hle'⟩⟩
    rw [ha, Option.some.injEq] at hd
    rw [Option.some.injEq] at hb hc
    rw [ha, Option.some.injEq]
    omega
  · intro h
    exact ⟨⟨0, 0, h, rfl, le_rfl⟩, ⟨0, 0, rfl, h, le_rfl⟩⟩

/-- Adding a zero leaves a number where it is. -/
theorem place?_add_zero {x y : Float} (h : place? (value y) = some 0) :
    place? (value (x + y)) = place? (value x) := by
  obtain ⟨t, ht⟩ := value_of_place?_zero h
  show place? (value (.ofModel (.pack (add Format.binary64 (value x) (value y))))) = _
  rw [ht]
  rcases add_zero_eq (value x) t with hadd | ⟨s, s', hx, hadd⟩
  · rw [hadd, value_pack (canonical_value x), settle_of_fits (fits_value x)]
  · rw [hadd, hx, value_pack (u := .zero s') trivial]
    rfl

theorem scalar_le_add_zero {x y z : Float} (h : Scalar.same y 0.0 = true) :
    Scalar.le (x + y) z = Scalar.le x z := by
  rw [Bool.eq_iff_iff, scalar_le_iff, scalar_le_iff, place?_add_zero (same_zero_iff.mp h)]

/-- Positive numbers do not equal zero. -/
theorem same_zero_of_pos {x : Float} (h : Scalar.lt 0.0 x = true) : Scalar.same x 0.0 = false := by
  obtain ⟨a, b, ha, hb, hlt⟩ := scalar_lt_iff.mp h
  rw [place?_zero, Option.some.injEq] at ha
  rw [Bool.eq_false_iff, ne_eq, same_zero_iff, hb, Option.some.injEq]
  omega

theorem isFinite_value_iff {x : Float} : (value x).isFinite = true ↔
    ∃ p, place? (value x) = some p ∧ -infinityRank < p ∧ p < infinityRank :=
  isFinite_iff (canonical_value x) (fits_value x)

theorem place?_mul {x y : Float} (hx : (value x).isFinite = true) (hy : (value y).isFinite = true) :
    place? (value (x * y)) = some (clip (nearestPlace (exact (value x) * exact (value y)))) := by
  obtain ⟨hcanonical, hplace⟩ := mul_place (canonical_value x) (canonical_value y) hx hy
  show place? (value (.ofModel (.pack (mul Format.binary64 (value x) (value y))))) = _
  rw [value_pack hcanonical, place?_settle hcanonical, hplace]
  rfl

theorem place?_value {x : Float} (hx : (value x).isFinite = true) :
    place? (value x) = some (nearestPlace (exact (value x))) :=
  nearestPlace_exact (canonical_value x) hx

theorem clip_of_lt {p : ℤ} (h : -infinityRank < p) (h' : p < infinityRank) : clip p = p := by
  unfold clip
  omega

theorem nearest_nat_lt {n : ℕ} (hn : n ≤ 2 ^ 63) : nearest n < infinityRank := by
  have hpow := nearest_two_zpow (k := 63) (by norm_num)
  have hle : nearest (n : ℚ) ≤ nearest (2 ^ (63 : ℤ)) := nearest_mono (by exact_mod_cast hn)
  have hlt := rank_lt_infinityRank (m := 2 ^ 52) (e := 63 - 52) (by norm_num) (by norm_num)
  omega

theorem clip_nearest_nat {n : ℕ} (hn : n ≤ 2 ^ 63) : clip (nearest n) = nearest n := by
  have := nearest_nat_lt hn
  exact clip_of_lt (by omega) (by exact_mod_cast this)

theorem place?_toFloat {n : ℕ} (hn : n < 2 ^ 53) :
    place? (value n.toUInt64.toFloat) = some (nearest n : ℤ) := by
  have hword : n.toUInt64.toNat = n := by
    rw [Nat.toUInt64_eq, UInt64.toNat_ofNat']
    exact Nat.mod_eq_of_lt (by omega)
  obtain ⟨hcanonical, hplace⟩ := normalize_place n 0 .positive
  rw [zpow_zero, mul_one, Int.cast_natCast, nearestPlace_of_nonneg (Nat.cast_nonneg n)] at hplace
  show place? (value (.ofModel (.pack (ofInt Format.binary64 (n.toUInt64.toNat : ℤ))))) = _
  rw [hword, ofInt, value_pack hcanonical, place?_settle hcanonical, hplace, Option.map_some,
    clip_nearest_nat (by omega)]

/-- Integers of up to 53 digits are converted as words, and then multiplied by one. -/
theorem ofNat_eq_mul {n : ℕ} (hn : n < 2 ^ 53) : Float.ofNat n = n.toUInt64.toFloat * 1.0 := by
  show Float.ofScientific n false 0 = _
  unfold Float.ofScientific
  rw [dif_pos ⟨hn, by norm_num⟩]
  rfl

theorem ofNat_eq_ofScientific {n : ℕ} (hn : ¬n < 2 ^ 53) :
    Float.ofNat n = .ofModel (.pack (UnpackedFloat.ofScientific Format.binary64 n 0)) := by
  show Float.ofScientific n false 0 = _
  unfold Float.ofScientific
  rw [dif_neg (mt And.left hn)]
  rfl

theorem ofScientific_place {n : ℕ} (hn : 0 < n) :
    Canonical (UnpackedFloat.ofScientific Format.binary64 n 0) ∧
      place? (UnpackedFloat.ofScientific Format.binary64 n 0) = some (nearest n : ℤ) := by
  have hround : UnpackedFloat.ofScientific Format.binary64 n 0 =
      roundWithAccuracy Format.binary64 .positive (n * 2 ^ 53) (-53) .exact := by
    have hbits : Format.binary64.mantissaBits = 53 := rfl
    unfold UnpackedFloat.ofScientific
    rw [dif_neg hn.ne', if_neg (by norm_num), if_neg, if_pos le_rfl]
    · simp only [mul, hbits, Int.toNat_zero, pow_zero, mul_one, add_zero, Nat.shiftLeft_eq]
      rfl
    · show ¬(0 : ℤ) < -(2 ^ 11 + n.log2)
      omega
  have hpos : 0 < n * 2 ^ 53 := Nat.mul_pos hn (Nat.two_pow_pos 53)
  have hvalue : ((n * 2 ^ 53 : ℕ) : ℚ) * 2 ^ (-53 : ℤ) = n := by
    push_cast
    rw [mul_assoc]
    norm_num
  have hdigit : (-53 : ℤ) ≤ lastDigit ((n * 2 ^ 53 : ℕ) * 2 ^ (-53 : ℤ)) := by
    rw [lastDigit_of_bounds hpos le_rfl (mul_lt_mul_of_pos_right (lt_add_one _) (two_zpow_pos _))]
    have := (Nat.le_log2 hpos.ne').mpr (Nat.le_mul_of_pos_left (2 ^ 53) hn)
    omega
  obtain ⟨hcanonical, hplace⟩ := roundWithAccuracy_place .positive hpos hdigit
  rw [hvalue] at hplace
  rw [hround]
  exact ⟨hcanonical, hplace⟩

/-- Integers are rounded to nearest. -/
theorem place?_ofNat (n : ℕ) : place? (value (Float.ofNat n)) = some (clip (nearest n)) := by
  by_cases hn : n < 2 ^ 53
  · have hsmall := place?_toFloat hn
    have hlt := nearest_nat_lt (n := n) (by omega)
    have hfinite : (value n.toUInt64.toFloat).isFinite = true :=
      isFinite_value_iff.mpr ⟨nearest n, hsmall, by omega, by exact_mod_cast hlt⟩
    have hplace := place?_value hfinite
    rw [hsmall, Option.some.injEq] at hplace
    rw [ofNat_eq_mul hn, place?_mul hfinite rfl, exact_one, mul_one, ← hplace]
  · obtain ⟨hcanonical, hplace⟩ := ofScientific_place (n := n) (by omega)
    rw [ofNat_eq_ofScientific hn, value_pack hcanonical, place?_settle hcanonical, hplace]
    rfl

theorem place?_ofNat_of_le {n : ℕ} (hn : n ≤ 2 ^ 63) :
    place? (value (Float.ofNat n)) = some (nearest n : ℤ) := by
  rw [place?_ofNat, clip_nearest_nat hn]

theorem isFinite_ofNat {n : ℕ} (hn : n ≤ 2 ^ 63) : (value (Float.ofNat n)).isFinite = true := by
  have hlt := nearest_nat_lt hn
  exact isFinite_value_iff.mpr ⟨nearest n, place?_ofNat_of_le hn, by omega, by omega⟩

end TileWorld.Double
