import TileWorld.Proofs.Number.Unpacked

/-! The words that doubles are kept in. Every word holds a canonical number, and a canonical number
is read back from its word, or as infinity when its exponent does not fit. -/
namespace TileWorld.Double
open Float.Model (UnpackedFloat Format)
open Float.Model.UnpackedFloat

/-- The number of a sign, a field of 11 bits and a fraction of 52. -/
def ofFields (s : Sign) (field fraction : ℕ) : UnpackedFloat :=
  if field = 2047 then if fraction = 0 then .infinity s else .notANumber
  else if field = 0 then
    if h : fraction = 0 then .zero s else .finite s fraction (-1074) (Nat.pos_of_ne_zero h)
  else .finite s (2 ^ 52 + fraction) (field - 1075) (by omega)

theorem toNat_one_append (m : BitVec 52) : (1#1 ++ m).toNat = 2 ^ 52 + m.toNat := by
  rw [BitVec.toNat_append, ← Nat.shiftLeft_add_eq_or_of_lt m.isLt]
  rfl

theorem toNat_unpackExponent (b : BitVec 64) :
    (@unpackExponent Format.binary64 b).toNat = b.toNat / 2 ^ 52 % 2 ^ 11 := by
  show (b.toNat >>> 52) % 2 ^ 11 = _
  rw [Nat.shiftRight_eq_div_pow]

theorem toNat_unpackMantissa (b : BitVec 64) :
    (@unpackMantissa Format.binary64 b).toNat = b.toNat % 2 ^ 52 := by
  show (b.toNat >>> 0) % 2 ^ 52 = _
  rfl

theorem toNat_unpackSign (b : BitVec 64) :
    (@unpackSign Format.binary64 b).toNat = b.toNat / 2 ^ 63 := by
  show (b.toNat >>> 63) % 2 ^ 1 = _
  rw [Nat.shiftRight_eq_div_pow]
  have := b.isLt
  omega

theorem unpack_eq (b : BitVec 64) :
    unpack Format.binary64 b =
      ofFields (Sign.ofBitVec (@unpackSign Format.binary64 b))
        (@unpackExponent Format.binary64 b).toNat
        (@unpackMantissa Format.binary64 b).toNat := by
  have hexponent (n : ℕ) (hn : n < 2 ^ 11) :
      @unpackExponent Format.binary64 b = BitVec.ofNat 11 n ↔
        (@unpackExponent Format.binary64 b).toNat = n := by
    rw [← BitVec.toNat_inj, BitVec.toNat_ofNat, Nat.mod_eq_of_lt hn]
  have hmantissa : @unpackMantissa Format.binary64 b = 0#52 ↔
      (@unpackMantissa Format.binary64 b).toNat = 0 := by
    rw [← BitVec.toNat_inj]
    rfl
  have hlast := hexponent 2047 (by norm_num)
  have hfirst := hexponent 0 (by norm_num)
  unfold unpack ofFields
  change (if @unpackExponent Format.binary64 b = BitVec.ofNat 11 2047 then _ else
    if @unpackExponent Format.binary64 b = BitVec.ofNat 11 0 then _ else _) = _
  by_cases hfield : (@unpackExponent Format.binary64 b).toNat = 2047
  · rw [if_pos (hlast.mpr hfield), if_pos hfield]
    exact if_congr hmantissa rfl rfl
  rw [if_neg (mt hlast.mp hfield), if_neg hfield]
  by_cases hfield₀ : (@unpackExponent Format.binary64 b).toNat = 0
  · rw [if_pos (hfirst.mpr hfield₀), if_pos hfield₀]
    by_cases hzero : (@unpackMantissa Format.binary64 b).toNat = 0
    · rw [dif_pos (hmantissa.mpr hzero), dif_pos hzero]
    · rw [dif_neg (mt hmantissa.mp hzero), dif_neg hzero]
      simp only [UnpackedFloat.finite.injEq, true_and]
      rw [hfield₀]
      rfl
  · rw [if_neg (mt hfirst.mp hfield₀), if_neg hfield₀]
    simp only [UnpackedFloat.finite.injEq, true_and]
    exact ⟨toNat_one_append _, rfl⟩

theorem canonical_ofFields (s : Sign) {field fraction : ℕ} (h : fraction < 2 ^ 52) :
    Canonical (ofFields s field fraction) := by
  unfold ofFields
  split_ifs with hlast hinfinity hfirst hzero
  · trivial
  · trivial
  · trivial
  · exact ⟨by omega, le_rfl, Or.inr rfl⟩
  · exact ⟨by omega, by omega, Or.inl (by omega)⟩

theorem fits_ofFields (s : Sign) {field : ℕ} (fraction : ℕ) (h : field < 2 ^ 11) :
    Fits (ofFields s field fraction) := by
  unfold ofFields
  split_ifs with hlast hinfinity hfirst hzero
  · trivial
  · trivial
  · trivial
  · show (-1074 : ℤ) ≤ 971
    norm_num
  · show (field : ℤ) - 1075 ≤ 971
    omega

theorem canonical_unpack (b : BitVec 64) : Canonical (unpack Format.binary64 b) := by
  rw [unpack_eq]
  exact canonical_ofFields _ (BitVec.isLt _)

theorem fits_unpack (b : BitVec 64) : Fits (unpack Format.binary64 b) := by
  rw [unpack_eq]
  exact fits_ofFields _ _ (BitVec.isLt _)

/-- A number whose exponent does not fit becomes infinite. -/
def settle : UnpackedFloat → UnpackedFloat
  | .finite s m e h => if 971 < e then .infinity s else .finite s m e h
  | u => u

theorem settle_finite (s : Sign) (m : ℕ) (e : ℤ) (hm : 0 < m) :
    settle (.finite s m e hm) = if 971 < e then .infinity s else .finite s m e hm := rfl

theorem settle_of_fits {u : UnpackedFloat} (h : Fits u) : settle u = u := by
  cases u with
  | finite s m e hm => exact if_neg h.not_gt
  | _ => rfl

theorem unpack_packComponents (s : Sign) (field : BitVec 11) (fraction : BitVec 52) :
    unpack Format.binary64 (packComponents Format.binary64 s field fraction) =
      ofFields s field.toNat fraction.toNat := by
  rw [unpack_eq]
  simp

/-- What is read back from the word of a canonical number. -/
theorem unpack_pack {u : UnpackedFloat} (h : Canonical u) :
    unpack Format.binary64 (pack Format.binary64 u) = settle u := by
  cases u with
  | notANumber => exact (unpack_packComponents _ _ _).trans rfl
  | infinity s => exact (unpack_packComponents _ _ _).trans rfl
  | zero s => exact (unpack_packComponents _ _ _).trans rfl
  | finite s m e hm =>
    obtain ⟨hm', he, hfull⟩ := h
    change unpack Format.binary64 (if 2 ^ 11 ≤ (e + (1023 : ℕ) + (52 : ℕ)).toNat + 1 then _
      else if m.log2 + 1 = 53 then _ else _) = _
    rw [settle_finite]
    by_cases hlarge : 971 < e
    · rw [if_pos (by omega), if_pos hlarge]
      exact (unpack_packComponents _ _ _).trans rfl
    rw [if_neg (by omega), if_neg hlarge]
    by_cases hlog : m.log2 + 1 = 53
    · have hm52 : 2 ^ 52 ≤ m := (Nat.le_log2 hm.ne').mp (by omega)
      have hbias : (e + Format.binary64.exponentBias +
          Format.binary64.mantissaBitsWithoutImplicit).toNat % 2 ^ 11 = (e + 1075).toNat := by
        change (e + (1023 : ℕ) + (52 : ℕ)).toNat % 2 ^ 11 = _
        omega
      have hfraction : m % 2 ^ 52 = m - 2 ^ 52 := by omega
      rw [if_pos hlog, unpack_packComponents, BitVec.toNat_ofNat, BitVec.toNat_ofNat, hbias,
        hfraction]
      unfold ofFields
      rw [if_neg (by omega), if_neg (by omega)]
      simp only [UnpackedFloat.finite.injEq, true_and]
      omega
    · have hm52 : m < 2 ^ 52 := by
        have := (Nat.log2_lt hm.ne').mpr hm'
        exact (Nat.log2_lt hm.ne').mp (by omega)
      obtain rfl : e = -1074 := by omega
      rw [if_neg hlog, unpack_packComponents, BitVec.toNat_ofNat, BitVec.toNat_ofNat,
        Nat.mod_eq_of_lt hm52]
      unfold ofFields
      rw [if_neg (by norm_num), if_pos (by norm_num), dif_neg hm.ne']

end TileWorld.Double
