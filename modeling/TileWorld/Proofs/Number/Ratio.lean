import TileWorld.Proofs.Number.Division
import TileWorld.Proofs.Number.Integers
import TileWorld.Proofs.Number.Quotient

/-! Quotients of integers as doubles. The word that is put together for one is the place of the
double nearest to the exact quotient. -/
namespace TileWorld.Quotient
open Double
open Float.Model (Format)
open Float.Model.UnpackedFloat

/-- A quotient in units of a power of two, as it is shifted for the division of whole numbers. -/
theorem div_shift (n d : ℕ) (e : ℤ) : (n : ℚ) / d / 2 ^ e =
    if 0 ≤ e then (n : ℚ) / (d <<< e.toNat : ℕ) else ((n <<< (-e).toNat : ℕ) : ℚ) / d := by
  split_ifs with he
  · obtain ⟨k, rfl⟩ := Int.eq_ofNat_of_zero_le he
    rw [Int.toNat_natCast, Nat.shiftLeft_eq, zpow_natCast, div_div]
    push_cast
    rfl
  · obtain ⟨k, rfl⟩ : ∃ k : ℕ, e = -k := ⟨(-e).toNat, by omega⟩
    rw [neg_neg, Int.toNat_natCast, Nat.shiftLeft_eq, zpow_neg, zpow_natCast, div_inv_eq_mul]
    push_cast
    ring

/-- Quotient and remainder tell how an exact quotient is rounded. -/
theorem roundEven_eq (n : ℕ) {d : ℕ} (hd : 0 < d) :
    Double.roundEven ((n : ℚ) / d) = roundEven n d := by
  have hd' : (0 : ℚ) < d := by exact_mod_cast hd
  have hn : (n : ℚ) = d * (n / d : ℕ) + (n % d : ℕ) := by exact_mod_cast (Nat.div_add_mod n d).symm
  have hrest : n % d < d := Nat.mod_lt n hd
  have hround : roundEven n d =
      if d < 2 * (n % d) || (2 * (n % d) == d && n / d % 2 == 1) then n / d + 1 else n / d := rfl
  rw [hround, hn]
  generalize n / d = q, n % d = r at hrest ⊢
  have hhalf : (d * q + r) / d + 1 / 2 = (q : ℚ) + (2 * r + d) / (2 * d) := by
    field_simp
    ring
  rw [Double.roundEven, hhalf]
  simp only [Bool.or_eq_true, decide_eq_true_iff, Bool.and_eq_true, beq_iff_eq]
  rcases lt_or_ge (2 * r) d with hlow | hhigh
  · have hshare : ((2 * r + d : ℚ)) / (2 * d) < 1 := by
      rw [div_lt_one (by positivity)]
      have : (2 * r : ℚ) < d := by exact_mod_cast hlow
      linarith
    have hpos : (0 : ℚ) < (2 * r + d) / (2 * d) := by positivity
    have hfloor : ⌊(q : ℚ) + (2 * r + d) / (2 * d)⌋ = q := by
      rw [Int.floor_eq_iff, Int.cast_natCast]
      constructor <;> linarith
    rw [hfloor, if_neg, if_neg (by omega)]
    rintro ⟨htie, -⟩
    rw [Int.cast_natCast] at htie
    linarith
  · have hshare : 1 ≤ ((2 * r + d : ℚ)) / (2 * d) := by
      rw [one_le_div (by positivity)]
      have : (d : ℚ) ≤ 2 * r := by exact_mod_cast hhigh
      linarith
    have hbelow : ((2 * r + d : ℚ)) / (2 * d) < 2 := by
      rw [div_lt_iff₀ (by positivity)]
      have : (r : ℚ) < d := by exact_mod_cast hrest
      linarith
    have hfloor : ⌊(q : ℚ) + (2 * r + d) / (2 * d)⌋ = q + 1 := by
      rw [Int.floor_eq_iff]
      push_cast
      constructor <;> linarith
    have htie : (q : ℚ) + (2 * r + d) / (2 * d) = ((q + 1 : ℤ) : ℚ) ↔ 2 * r = d := by
      push_cast
      rw [add_right_inj, div_eq_one_iff_eq (by positivity), two_mul (d : ℚ), add_left_inj]
      norm_cast
    rw [hfloor]
    simp only [htie]
    split_ifs <;> omega

/-- Whether a quotient reaches a power of two is asked of whole numbers. -/
theorem reaches_iff {n d : ℕ} (hd : 0 < d) (e : ℤ) : (2 : ℚ) ^ e ≤ n / d ↔
    (if 0 ≤ e then decide (d <<< e.toNat ≤ n) else decide (d ≤ n <<< (-e).toNat)) = true := by
  have hd' : (0 : ℚ) < d := by exact_mod_cast hd
  rw [← one_le_div₀ (two_zpow_pos e), div_shift]
  split_ifs
  · have hshift : (0 : ℚ) < (d <<< e.toNat : ℕ) := by
      rw [Nat.shiftLeft_eq]
      exact_mod_cast Nat.mul_pos hd (Nat.two_pow_pos _)
    rw [one_le_div₀ hshift, Nat.cast_le, decide_eq_true_iff]
  · rw [one_le_div₀ hd', Nat.cast_le, decide_eq_true_iff]

theorem lastPlace_eq {n d : ℕ} (hn : 0 < n) (hd : 0 < d) :
    lastPlace n d = lastDigit ((n : ℚ) / d) := by
  have hn' : (0 : ℚ) < n := by exact_mod_cast hn
  have hd' : (0 : ℚ) < d := by exact_mod_cast hd
  have hpos : (0 : ℚ) < n / d := div_pos hn' hd'
  have hlow : (n.log2 : ℤ) - d.log2 - 1 ≤ Int.log 2 ((n : ℚ) / d) := by
    simpa using le_log_div 0 0 hn hd
  have hhigh : (n : ℚ) / d < ((2 : ℕ) : ℚ) ^ ((n.log2 : ℤ) - d.log2 + 1) := by
    have hn₂ : (n : ℚ) < 2 ^ ((n.log2 : ℤ) + 1) := by
      rw [← Nat.cast_add_one, zpow_natCast]
      exact_mod_cast Nat.lt_log2_self
    have hd₂ : (2 : ℚ) ^ (d.log2 : ℤ) ≤ d := by
      rw [zpow_natCast]
      exact_mod_cast Nat.log2_self_le hd.ne'
    rw [div_lt_iff₀ hd', Nat.cast_ofNat]
    calc (n : ℚ) < 2 ^ ((n.log2 : ℤ) + 1) := hn₂
      _ = 2 ^ ((n.log2 : ℤ) - d.log2 + 1) * 2 ^ (d.log2 : ℤ) := by
        rw [← zpow_add₀ two_ne_zero]
        congr 1
        ring
      _ ≤ 2 ^ ((n.log2 : ℤ) - d.log2 + 1) * d := by gcongr
  have hlog := (Int.lt_zpow_iff_log_lt one_lt_two hpos).mp hhigh
  have hreach := (Int.zpow_le_iff_le_log one_lt_two hpos (x := (n.log2 : ℤ) - d.log2)).symm.trans
    (reaches_iff hd _)
  unfold lastPlace lastDigit
  dsimp only
  generalize (if 0 ≤ (n.log2 : ℤ) - d.log2 then _ else _ : Bool) = reaches at hreach ⊢
  split_ifs with h
  · have := hreach.mpr h
    omega
  · have := mt hreach.mp h
    omega

/-- The bits of a quotient are the place of the double nearest to it. -/
theorem bits?_eq_some {n d : ℕ} (hd : 0 < d) {w : UInt64} (h : bits? n d = some w) :
    w.toNat = nearest ((n : ℚ) / d) ∧ w.toNat < infinityRank := by
  unfold bits? at h
  split_ifs at h with hn
  · obtain rfl := Option.some.inj h
    rw [hn, Nat.cast_zero, zero_div, nearest, if_pos le_rfl]
    exact ⟨rfl, by decide⟩
  have hn := Nat.pos_of_ne_zero hn
  have hpos : (0 : ℚ) < n / d := div_pos (by exact_mod_cast hn) (by exact_mod_cast hd)
  have hmantissa : (if 0 ≤ lastPlace n d then roundEven n (d <<< (lastPlace n d).toNat)
      else roundEven (n <<< (-lastPlace n d).toNat) d) =
        (Double.roundEven (scaled ((n : ℚ) / d))).toNat := by
    rw [scaled, ← lastPlace_eq hn hd, div_shift]
    split_ifs
    · have hshift : 0 < d <<< (lastPlace n d).toNat := by
        rw [Nat.shiftLeft_eq]
        positivity
      rw [roundEven_eq _ hshift, Int.toNat_natCast]
    · rw [roundEven_eq _ hd, Int.toNat_natCast]
  have hrank : nearest ((n : ℚ) / d) = ((lastPlace n d + 1074).toNat <<< 52) +
      (Double.roundEven (scaled ((n : ℚ) / d))).toNat := by
    rw [nearest, if_neg hpos.not_ge, rank, lastPlace_eq hn hd, Nat.shiftLeft_eq]
  dsimp only at h
  rw [hmantissa, ← hrank] at h
  split_ifs at h with hbound
  obtain rfl := Option.some.inj h
  have hword : (nearest ((n : ℚ) / d)).toUInt64.toNat = nearest ((n : ℚ) / d) :=
    UInt64.toNat_ofNat_of_lt (hbound.trans (by decide))
  rw [hword]
  exact ⟨rfl, hbound⟩

end TileWorld.Quotient

namespace TileWorld.Double
open Float.Model (Format)
open Float.Model.UnpackedFloat

/-- Fields below those of infinity are read as a place with a sign. -/
theorem place?_ofFields (s : Sign) {field : ℕ} (fraction : ℕ) (h : field < 2047) :
    (ofFields s field fraction).isFinite = true ∧
      place? (ofFields s field fraction) = some (s.apply (field * 2 ^ 52 + fraction : ℕ)) := by
  unfold ofFields
  rw [if_neg h.ne]
  split_ifs with hfield hfraction
  · rw [hfield, hfraction]
    exact ⟨rfl, by cases s <;> rfl⟩
  · rw [hfield]
    exact ⟨rfl, congrArg (fun k : ℕ => some (s.apply k)) (by simp [rank])⟩
  · refine ⟨rfl, congrArg (fun k : ℕ => some (s.apply k)) ?_⟩
    unfold rank
    omega

/-- The word of a finite double is its place and a bit for the sign. -/
theorem place?_ofBits {s : Sign} {w : UInt64} {k : ℕ} (hk : k < infinityRank)
    (hw : w.toNat = (if isNegative s then 2 ^ 63 else 0) + k) :
    (value (.ofBits w)).isFinite = true ∧ place? (value (.ofBits w)) = some (s.apply k) := by
  have hvalue : value (.ofBits w) = unpack Format.binary64 w.toBitVec :=
    (value_pack (canonical_unpack _)).trans (settle_of_fits (fits_unpack _))
  have hbit : w.toBitVec.toNat / 2 ^ 63 = if isNegative s then 1 else 0 := by
    rw [UInt64.toNat_toBitVec, hw]
    unfold infinityRank at hk
    split_ifs <;> omega
  have hsign : Sign.ofBitVec (@unpackSign Format.binary64 w.toBitVec) = s := by
    have hword := (toNat_unpackSign w.toBitVec).trans hbit
    rcases BitVec.eq_zero_or_eq_one (@unpackSign Format.binary64 w.toBitVec) with h | h
    · rw [h] at hword ⊢
      cases s
      · cases hword
      · rfl
    · rw [h] at hword ⊢
      cases s
      · rfl
      · cases hword
  have hexponent : w.toBitVec.toNat / 2 ^ 52 % 2 ^ 11 = k / 2 ^ 52 := by
    rw [UInt64.toNat_toBitVec, hw]
    unfold infinityRank at hk
    split_ifs <;> omega
  have hmantissa : w.toBitVec.toNat % 2 ^ 52 = k % 2 ^ 52 := by
    rw [UInt64.toNat_toBitVec, hw]
    split_ifs <;> omega
  rw [hvalue, unpack_eq, hsign, toNat_unpackExponent, toNat_unpackMantissa, hexponent, hmantissa]
  obtain ⟨hfinite, hplace⟩ := place?_ofFields s (k % 2 ^ 52)
    (show k / 2 ^ 52 < 2047 by unfold infinityRank at hk; omega)
  rw [Nat.div_add_mod'] at hplace
  exact ⟨hfinite, hplace⟩

end TileWorld.Double

namespace TileWorld.Quotient
open Double
open Float.Model.UnpackedFloat

/-- The place of a quotient is that of its magnitude with its sign. -/
theorem nearestPlace_div (a b : ℤ) : nearestPlace ((a : ℚ) / b) =
    (if decide (a < 0) != decide (b < 0) then Sign.negative else .positive).apply
      (nearest ((a.natAbs : ℚ) / b.natAbs)) := by
  rw [← nearestPlace_signed _ (by positivity), Nat.cast_natAbs, Nat.cast_natAbs, Int.cast_abs,
    Int.cast_abs]
  congr 1
  have habs {n : ℤ} : |(n : ℚ)| = if n < 0 then -(n : ℚ) else n := by
    split_ifs with hn
    · exact abs_of_neg (by exact_mod_cast hn)
    · exact abs_of_nonneg (by exact_mod_cast not_lt.mp hn)
  rw [habs, habs]
  by_cases ha : a < 0 <;> by_cases hb : b < 0 <;> simp [ha, hb, signed, neg_div, div_neg]

/-- The double of a quotient is the one nearest to it. -/
theorem rounds_of_nearest? {a b : ℤ} (hb : b ≠ 0) {x : Float} (h : nearest? a b = some x) :
    Rounds x ((a : ℚ) / b) := by
  obtain ⟨w, hw, rfl⟩ := Option.map_eq_some_iff.mp h
  obtain ⟨hplace, hbound⟩ := bits?_eq_some (Int.natAbs_pos.mpr hb) hw
  have hbits : (if decide (a < 0) != decide (b < 0) then w ||| 0x8000000000000000 else w).toNat =
      (if isNegative (if decide (a < 0) != decide (b < 0) then Sign.negative else .positive)
        then 2 ^ 63 else 0) + w.toNat := by
    cases decide (a < 0) != decide (b < 0) with
    | false => exact (Nat.zero_add _).symm
    | true =>
      have hlow : w.toNat < 2 ^ 63 := hbound.trans (by decide)
      exact (Nat.or_comm _ _).trans (Nat.two_pow_add_eq_or_of_lt hlow 1).symm
  obtain ⟨hfinite, hread⟩ := place?_ofBits hbound hbits
  exact ⟨hfinite, by rw [hread, hplace, nearestPlace_div]⟩

end TileWorld.Quotient
