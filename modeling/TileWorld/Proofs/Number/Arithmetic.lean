import TileWorld.Proofs.Number.Packed
import TileWorld.Proofs.Number.Rounded

/-! Arithmetic of doubles taken apart. Products go to the place nearest to the exact product, and
numbers that are not negative stay so under sums, products and quotients. -/
namespace TileWorld.Double
open Float.Model (UnpackedFloat Format)
open Float.Model.UnpackedFloat

/-- A canonical number has the greater rank of two exactly when it is the greater one. -/
theorem rank_lt_rank_iff {m n : ℕ} {e f : ℤ} (hm : m < 2 ^ 53) (hn : n < 2 ^ 53) (he : -1074 ≤ e)
    (hf : -1074 ≤ f) (hm' : 2 ^ 52 ≤ m ∨ e = -1074) (hn' : 2 ^ 52 ≤ n ∨ f = -1074) :
    rank m e < rank n f ↔ (m : ℚ) * 2 ^ e < n * 2 ^ f := by
  have hlt {m n : ℕ} {e f : ℤ} (hm : m < 2 ^ 53) (he : -1074 ≤ e)
      (hn' : 2 ^ 52 ≤ n ∨ f = -1074) (hef : e < f) : (m : ℚ) * 2 ^ e < n * 2 ^ f := by
    have hn : ((2 ^ 52 : ℕ) : ℚ) ≤ n := by exact_mod_cast (show 2 ^ 52 ≤ n by omega)
    have hm : (m : ℚ) < ((2 ^ 53 : ℕ) : ℚ) := by exact_mod_cast hm
    have hpow : (2 : ℚ) ^ (e + 1) ≤ 2 ^ f := zpow_le_zpow_right₀ one_le_two (by omega)
    push_cast at hm hn
    calc (m : ℚ) * 2 ^ e < 2 ^ 53 * 2 ^ e := mul_lt_mul_of_pos_right hm (two_zpow_pos e)
      _ = 2 ^ 52 * 2 ^ (e + 1) := by
        rw [zpow_add₀ two_ne_zero]
        ring
      _ ≤ n * 2 ^ f := mul_le_mul hn hpow (two_zpow_pos _).le (Nat.cast_nonneg n)
  rcases lt_trichotomy e f with hef | rfl | hef
  · refine iff_of_true ?_ (hlt hm he hn' hef)
    unfold rank
    omega
  · rw [mul_lt_mul_iff_of_pos_right (two_zpow_pos e), Nat.cast_lt]
    unfold rank
    omega
  · refine iff_of_false ?_ (hlt hn hf hm' hef).not_gt
    unfold rank
    omega

theorem exponent_le_lastDigit_mul {m n : ℕ} {e f : ℤ} (hm : 0 < m) (hn : 0 < n)
    (hm' : 2 ^ 52 ≤ m ∨ e = -1074) (hn' : 2 ^ 52 ≤ n ∨ f = -1074) :
    e + f ≤ lastDigit ((m * n : ℕ) * 2 ^ (e + f)) := by
  have hmn : 0 < m * n := Nat.mul_pos hm hn
  rw [lastDigit_of_bounds hmn le_rfl (mul_lt_mul_of_pos_right (lt_add_one _) (two_zpow_pos _))]
  by_cases hfull : 2 ^ 52 ≤ m * n
  · have := (Nat.le_log2 hmn.ne').mpr hfull
    omega
  · have hm_le : m ≤ m * n := Nat.le_mul_of_pos_right m hn
    have hn_le : n ≤ m * n := Nat.le_mul_of_pos_left n hm
    omega

/-- Products are rounded to nearest. -/
theorem mul_place {u v : UnpackedFloat} (hu : Canonical u) (hv : Canonical v)
    (hu' : u.isFinite = true) (hv' : v.isFinite = true) :
    Canonical (mul Format.binary64 u v) ∧
      place? (mul Format.binary64 u v) = some (nearestPlace (exact u * exact v)) := by
  cases u with
  | notANumber => simp [isFinite] at hu'
  | infinity s => simp [isFinite] at hu'
  | zero s =>
    cases v with
    | notANumber => simp [isFinite] at hv'
    | infinity t => simp [isFinite] at hv'
    | zero t => exact ⟨trivial, by simp [mul, exact, place?]⟩
    | finite t n f hn => exact ⟨trivial, by simp [mul, exact, place?]⟩
  | finite s m e hm =>
    cases v with
    | notANumber => simp [isFinite] at hv'
    | infinity t => simp [isFinite] at hv'
    | zero t => exact ⟨trivial, by simp [mul, exact, place?]⟩
    | finite t n f hn =>
      obtain ⟨hcanonical, hplace⟩ := roundWithAccuracy_place (s * t) (Nat.mul_pos hm hn)
        (exponent_le_lastDigit_mul hm hn hu.2.2 hv.2.2)
      refine ⟨hcanonical, hplace.trans ?_⟩
      have hexact : exact (.finite s m e hm) * exact (.finite t n f hn) =
          signed (s * t) ((m * n : ℕ) * 2 ^ (e + f)) := by
        rw [exact_finite, exact_finite, zpow_add₀ two_ne_zero, Nat.cast_mul]
        cases s <;> cases t
        · show -(m * 2 ^ e : ℚ) * -(n * 2 ^ f) = m * n * (2 ^ e * 2 ^ f)
          ring
        · show -(m * 2 ^ e : ℚ) * (n * 2 ^ f) = -(m * n * (2 ^ e * 2 ^ f))
          ring
        · show (m * 2 ^ e : ℚ) * -(n * 2 ^ f) = -(m * n * (2 ^ e * 2 ^ f))
          ring
        · show (m * 2 ^ e : ℚ) * (n * 2 ^ f) = m * n * (2 ^ e * 2 ^ f)
          ring
      rw [hexact, nearestPlace_signed _ (by positivity)]

/-- The nearest place that there is. -/
def clip (p : ℤ) : ℤ := max (-infinityRank) (min p infinityRank)

theorem place?_settle {u : UnpackedFloat} (h : Canonical u) :
    place? (settle u) = (place? u).map clip := by
  have hinfinity : (0 : ℤ) < infinityRank := by decide
  have happly (s : Sign) {r : ℕ} (hr : infinityRank ≤ r) :
      s.apply infinityRank = clip (s.apply r) := by
    unfold clip
    cases s with
    | negative => show -(infinityRank : ℤ) = max _ (min (-(r : ℤ)) _); omega
    | positive => show (infinityRank : ℤ) = max _ (min (r : ℤ) _); omega
  cases u with
  | notANumber => rfl
  | infinity s => exact congrArg some (happly s le_rfl)
  | zero s =>
    show some (0 : ℤ) = some (clip 0)
    rw [clip]
    congr 1
  | finite s m e hm =>
    rw [settle_finite]
    split_ifs with he
    · exact congrArg some (happly s (infinityRank_le_rank (by have := h.2; omega) he))
    · have hrank := rank_lt_infinityRank h.1 (not_lt.mp he)
      show some (s.apply (rank m e)) = some (clip (s.apply (rank m e)))
      congr 1
      unfold clip
      cases s with
      | negative => show -(rank m e : ℤ) = max _ (min (-(rank m e : ℤ)) _); omega
      | positive => show (rank m e : ℤ) = max _ (min (rank m e : ℤ) _); omega

theorem isFinite_iff {u : UnpackedFloat} (hu : Canonical u) (hu' : Fits u) :
    u.isFinite = true ↔ ∃ p, place? u = some p ∧ -infinityRank < p ∧ p < infinityRank := by
  have hinfinity : (0 : ℤ) < infinityRank := by decide
  cases u with
  | notANumber => simp [isFinite, place?]
  | infinity s => cases s <;> simp [isFinite, place?, Sign.apply]
  | zero s => simpa [isFinite, place?] using hinfinity
  | finite s m e hm =>
    have hrank := rank_lt_infinityRank hu.1 hu'
    refine iff_of_true rfl ⟨s.apply (rank m e), rfl, ?_⟩
    cases s with
    | negative => show -(infinityRank : ℤ) < -rank m e ∧ -(rank m e : ℤ) < infinityRank; omega
    | positive => show -(infinityRank : ℤ) < rank m e ∧ (rank m e : ℤ) < infinityRank; omega

/-- Neither a negative number nor negative infinity. -/
def NotNegative : UnpackedFloat → Prop
  | .infinity .negative => False
  | .finite .negative _ _ _ => False
  | _ => True

/-- Numbers that are not negative are those from place zero on. -/
theorem notNegative_iff {u : UnpackedFloat} {p : ℤ} (h : place? u = some p) :
    NotNegative u ↔ 0 ≤ p := by
  have hinfinity : (0 : ℤ) < infinityRank := by decide
  rcases u with ⟨_ | _⟩ | _ | s | ⟨_ | _, m, e, hm⟩
  · obtain rfl : -(infinityRank : ℤ) = p := Option.some.inj h
    exact iff_of_false id (by omega)
  · obtain rfl : (infinityRank : ℤ) = p := Option.some.inj h
    exact iff_of_true trivial hinfinity.le
  · simp [place?] at h
  · obtain rfl : 0 = p := Option.some.inj h
    exact iff_of_true trivial le_rfl
  · have hpos := rank_pos hm e
    obtain rfl : -(rank m e : ℤ) = p := Option.some.inj h
    exact iff_of_false id (by omega)
  · obtain rfl : (rank m e : ℤ) = p := Option.some.inj h
    exact iff_of_true trivial (Int.natCast_nonneg _)

theorem exact_nonneg {u : UnpackedFloat} (h : NotNegative u) : 0 ≤ exact u := by
  rcases u with ⟨_ | _⟩ | _ | s | ⟨_ | _, m, e, hm⟩
  · exact le_rfl
  · exact le_rfl
  · exact le_rfl
  · exact le_rfl
  · exact h.elim
  · rw [exact_finite, signed]
    positivity

/-- Of two numbers that are not negative, the one at the lower place is the lower one. -/
theorem exact_le_of_place? {u v : UnpackedFloat} {p q : ℤ} (hu : Canonical u) (hv : Canonical v)
    (hu' : NotNegative u) (hv' : NotNegative v) (hfinite : v.isFinite = true)
    (hp : place? u = some p) (hq : place? v = some q) (h : p ≤ q) : exact u ≤ exact v := by
  have hzero := exact_nonneg hv'
  rcases u with s | _ | s | ⟨_ | _, m, e, hm⟩
  · exact hzero
  · exact hzero
  · exact hzero
  · exact hu'.elim
  have hpos := rank_pos hm e
  have hp : (rank m e : ℤ) = p := Option.some.inj hp
  rcases v with s | _ | s | ⟨_ | _, n, f, hn⟩
  · simp [isFinite] at hfinite
  · simp [isFinite] at hfinite
  · have : 0 = q := Option.some.inj hq
    omega
  · exact hv'.elim
  · have hq : (rank n f : ℤ) = q := Option.some.inj hq
    rw [exact_finite, exact_finite, signed, signed, ← not_lt,
      ← rank_lt_rank_iff hv.1 hu.1 hv.2.1 hu.2.1 hv.2.2 hu.2.2]
    omega

theorem roundWithAccuracy_notNegative (m : ℕ) (e : ℤ) (a : Accuracy) :
    NotNegative (roundWithAccuracy Format.binary64 .positive m e a) := by
  unfold roundWithAccuracy
  dsimp only
  split_ifs <;> trivial

theorem normalize_notNegative {m : ℤ} (hm : 0 ≤ m) (e : ℤ) (s : Sign) :
    NotNegative (UnpackedFloat.normalize Format.binary64 m e s) := by
  unfold UnpackedFloat.normalize
  rcases hm.eq_or_lt with rfl | hm
  · trivial
  · rw [compare_gt_iff_gt.mpr hm]
    exact roundWithAccuracy_notNegative _ _ _

theorem add_notNegative {u v : UnpackedFloat} (hu : NotNegative u) (hv : NotNegative v) :
    NotNegative (add Format.binary64 u v) := by
  rcases u with ⟨_ | _⟩ | _ | ⟨_ | _⟩ | ⟨_ | _, m, e, hm⟩ <;>
    rcases v with ⟨_ | _⟩ | _ | ⟨_ | _⟩ | ⟨_ | _, n, f, hn⟩ <;> try trivial
  exact normalize_notNegative (Int.add_nonneg (Int.natCast_nonneg _) (Int.natCast_nonneg _)) _ _

theorem mul_notNegative {u v : UnpackedFloat} (hu : NotNegative u) (hv : NotNegative v) :
    NotNegative (mul Format.binary64 u v) := by
  rcases u with ⟨_ | _⟩ | _ | ⟨_ | _⟩ | ⟨_ | _, m, e, hm⟩ <;>
    rcases v with ⟨_ | _⟩ | _ | ⟨_ | _⟩ | ⟨_ | _, n, f, hn⟩ <;> try trivial
  exact roundWithAccuracy_notNegative _ _ _

theorem add_zero_eq (u : UnpackedFloat) (t : Sign) :
    add Format.binary64 u (.zero t) = u ∨ ∃ s s', u = .zero s ∧
      add Format.binary64 u (.zero t) = .zero s' := by
  cases u with
  | notANumber => exact Or.inl rfl
  | infinity s => cases s <;> exact Or.inl rfl
  | zero s =>
    right
    cases s <;> cases t
    · exact ⟨_, .negative, rfl, rfl⟩
    · exact ⟨_, .positive, rfl, rfl⟩
    · exact ⟨_, .positive, rfl, rfl⟩
    · exact ⟨_, .positive, rfl, rfl⟩
  | finite s m e hm => exact Or.inl rfl

theorem div_notNegative {u v : UnpackedFloat} (hu : NotNegative u) (hv : NotNegative v)
    (hzero : ∀ s, v ≠ .zero s) : NotNegative (div Format.binary64 u v) := by
  rcases u with ⟨_ | _⟩ | _ | ⟨_ | _⟩ | ⟨_ | _, m, e, hm⟩ <;>
    rcases v with ⟨_ | _⟩ | _ | s | ⟨_ | _, n, f, hn⟩ <;>
    first | trivial | exact absurd rfl (hzero s) | exact roundWithAccuracy_notNegative _ _ _

theorem decreaseExponent_value {m : ℕ} {e t : ℤ} (ht : t ≤ e) :
    ((decreaseExponent m e t).1 : ℚ) * 2 ^ t = m * 2 ^ e := by
  have hshift : ((e - t).toNat : ℤ) = e - t := Int.toNat_of_nonneg (by omega)
  show ((m <<< (e - t).toNat : ℕ) : ℚ) * 2 ^ t = m * 2 ^ e
  rw [Nat.shiftLeft_eq]
  push_cast
  rw [← zpow_natCast, hshift, zpow_sub₀ two_ne_zero]
  field_simp

/-- What is left of a number after no more than itself is taken away. -/
theorem sub_notNegative {m n : ℕ} {e f : ℤ} (hm : 0 < m) (hn : 0 < n)
    (h : (n : ℚ) * 2 ^ f ≤ m * 2 ^ e) :
    NotNegative (sub Format.binary64 (.finite .positive m e hm) (.finite .positive n f hn)) := by
  refine normalize_notNegative (Int.sub_nonneg_of_le (Int.ofNat_le.mpr ?_)) _ _
  have hpow := two_zpow_pos (min e f)
  rw [← decreaseExponent_value (min_le_left e f), ← decreaseExponent_value (min_le_right e f)] at h
  exact_mod_cast le_of_mul_le_mul_right h hpow

theorem ofFields_notNegative (field fraction : ℕ) :
    NotNegative (ofFields .positive field fraction) := by
  unfold ofFields
  split_ifs <;> trivial

/-- Keeping a number in a word keeps it from turning negative. -/
theorem unpack_pack_notNegative {u : UnpackedFloat} (h : NotNegative u) :
    NotNegative (unpack Format.binary64 (pack Format.binary64 u)) := by
  have hwords (field : BitVec 11) (fraction : BitVec 52) :
      NotNegative (unpack Format.binary64
        (packComponents Format.binary64 .positive field fraction)) := by
    rw [unpack_packComponents]
    exact ofFields_notNegative _ _
  rcases u with ⟨_ | _⟩ | _ | s | ⟨_ | _, m, e, hm⟩
  · exact h.elim
  · exact hwords _ _
  · exact hwords _ _
  · rw [unpack_pack (u := .zero s) trivial]
    trivial
  · exact h.elim
  · unfold pack
    dsimp only
    split_ifs
    · exact hwords _ _
    · exact hwords _ _
    · exact hwords _ _

end TileWorld.Double
