import TileWorld.Proofs.Number.Sums
import TileWorld.Proofs.Number.Whole

/-! Integers of either sign as doubles: their conversion, their shares, and differences that are not
zero. -/
namespace TileWorld.Double
open Float.Model (UnpackedFloat Format)
open Float.Model.UnpackedFloat

theorem value_neg (x : Float) : value x.neg = (value x).neg :=
  (value_pack (canonical_neg (canonical_value x))).trans (settle_of_fits (fits_neg (fits_value x)))

theorem place?_add {x y : Float} (hx : (value x).isFinite = true) (hy : (value y).isFinite = true) :
    place? (value (x + y)) = some (clip (nearestPlace (exact (value x) + exact (value y)))) := by
  obtain ⟨hcanonical, hplace⟩ := add_place (canonical_value x) (canonical_value y) hx hy
  show place? (value (.ofModel (.pack (add Format.binary64 (value x) (value y))))) = _
  rw [value_pack hcanonical, place?_settle hcanonical, hplace]
  rfl

theorem place?_sub {x y : Float} (hx : (value x).isFinite = true) (hy : (value y).isFinite = true) :
    place? (value (x - y)) = some (clip (nearestPlace (exact (value x) - exact (value y)))) := by
  have hneg : (value y).neg.isFinite = true := by rw [isFinite_neg, hy]
  obtain ⟨hcanonical, hplace⟩ :=
    add_place (canonical_value x) (canonical_neg (canonical_value y)) hx hneg
  show place? (value (.ofModel (.pack (sub Format.binary64 (value x) (value y))))) = _
  rw [sub_eq_add, value_pack hcanonical, place?_settle hcanonical, hplace, exact_neg,
    ← sub_eq_add_neg]
  rfl

/-- Integers of either sign are rounded to nearest. -/
theorem place?_ofInt (n : ℤ) : place? (value (Float.ofInt n)) = some (clip (nearestPlace n)) := by
  cases n with
  | ofNat n =>
    rw [Int.ofNat_eq_natCast, Int.cast_natCast, nearestPlace_of_nonneg (Nat.cast_nonneg n)]
    exact place?_ofNat n
  | negSucc n =>
    show place? (value (Float.ofNat (n + 1)).neg) = _
    have hcast : ((Int.negSucc n : ℤ) : ℚ) = -((n + 1 : ℕ) : ℚ) := by
      rw [Int.cast_negSucc]
    rw [value_neg, place?_neg, place?_ofNat, hcast, nearestPlace_neg,
      nearestPlace_of_nonneg (Nat.cast_nonneg _), Option.map_some]
    congr 1
    unfold clip
    omega

/-- A finite double, the nearest one to an exact number. -/
structure Rounds (x : Float) (a : ℚ) : Prop where
  finite : (value x).isFinite = true
  place : place? (value x) = some (nearestPlace a)

namespace Rounds
variable {x y : Float} {a b : ℚ}

theorem refl (h : (value x).isFinite = true) : Rounds x (exact (value x)) := ⟨h, place?_value h⟩

theorem zero : Rounds 0.0 0 := ⟨rfl, by rw [nearestPlace_zero]; rfl⟩

/-- Nearest doubles of numbers in order are in order. -/
theorem mono (hx : Rounds x a) (hy : Rounds y b) (h : a ≤ b) :
    exact (value x) ≤ exact (value y) :=
  (exact_le_iff (canonical_value x) (canonical_value y) hx.finite hy.finite hx.place hy.place).mpr
    (nearestPlace_mono h)

theorem scalar_le (hx : Rounds x a) (hy : Rounds y b) (h : a ≤ b) : Scalar.le x y = true :=
  scalar_le_iff.mpr ⟨_, _, hx.place, hy.place, nearestPlace_mono h⟩

theorem exact_eq (hx : Rounds x a) (hy : (value y).isFinite = true) (h : a = exact (value y)) :
    exact (value x) = exact (value y) :=
  le_antisymm (hx.mono (refl hy) h.le) ((refl hy).mono hx h.ge)

theorem nonneg (hx : Rounds x a) (h : 0 ≤ a) : 0 ≤ exact (value x) := zero.mono hx h

theorem nonpos (hx : Rounds x a) (h : a ≤ 0) : exact (value x) ≤ 0 := hx.mono zero h

theorem neg (hx : Rounds x a) : Rounds x.neg (-a) where
  finite := by rw [value_neg, isFinite_neg, hx.finite]
  place := by rw [value_neg, place?_neg, hx.place, nearestPlace_neg, Option.map_some]

/-- Rounding keeps numbers within the bounds of a double. -/
theorem abs_le_abs (hx : Rounds x a) (hy : (value y).isFinite = true)
    (h : |a| ≤ |exact (value y)|) : |exact (value x)| ≤ |exact (value y)| := by
  have hneg := (refl hy).neg
  have hexact : exact (value y.neg) = -exact (value y) := by rw [value_neg, exact_neg]
  obtain ⟨hlow, hhigh⟩ := abs_le.mp h
  rcases abs_choice (exact (value y)) with hchoice | hchoice
  · rw [hchoice] at hlow hhigh ⊢
    exact abs_le.mpr ⟨hexact ▸ hneg.mono hx hlow, hx.mono (refl hy) hhigh⟩
  · rw [hchoice] at hlow hhigh ⊢
    rw [neg_neg] at hlow
    exact abs_le.mpr ⟨by rw [neg_neg]; exact (refl hy).mono hx hlow, hexact ▸ hx.mono hneg hhigh⟩

/-- No overflow comes close to numbers of 252 digits. -/
theorem of_clip (h : place? (value x) = some (clip (nearestPlace a))) (ha : |a| ≤ 2 ^ 253) :
    Rounds x a := by
  have hlt := rank_lt_infinityRank (m := 2 ^ 52) (e := 253 - 52) (by norm_num) (by norm_num)
  have hpow := nearest_two_zpow (k := 253) (by norm_num)
  have htop : nearestPlace (2 ^ (253 : ℤ)) = nearest (2 ^ (253 : ℤ)) :=
    nearestPlace_of_nonneg (by positivity)
  obtain ⟨hlow, hhigh⟩ := abs_le.mp ha
  have hlow : nearestPlace (-2 ^ (253 : ℤ)) ≤ nearestPlace a :=
    nearestPlace_mono (by exact_mod_cast hlow)
  have hhigh : nearestPlace a ≤ nearestPlace (2 ^ (253 : ℤ)) :=
    nearestPlace_mono (by exact_mod_cast hhigh)
  rw [nearestPlace_neg] at hlow
  rw [clip_of_lt (by omega) (by omega)] at h
  exact ⟨isFinite_value_iff.mpr ⟨_, h, by omega, by omega⟩, h⟩

theorem mul (hx : (value x).isFinite = true) (hy : (value y).isFinite = true)
    (h : |exact (value x) * exact (value y)| ≤ 2 ^ 253) :
    Rounds (x * y) (exact (value x) * exact (value y)) := of_clip (place?_mul hx hy) h

theorem add (hx : (value x).isFinite = true) (hy : (value y).isFinite = true)
    (h : |exact (value x) + exact (value y)| ≤ 2 ^ 253) :
    Rounds (x + y) (exact (value x) + exact (value y)) := of_clip (place?_add hx hy) h

theorem sub (hx : (value x).isFinite = true) (hy : (value y).isFinite = true)
    (h : |exact (value x) - exact (value y)| ≤ 2 ^ 253) :
    Rounds (x - y) (exact (value x) - exact (value y)) := of_clip (place?_sub hx hy) h

end Rounds

/-- An integer far from overflow. -/
def Sizable (n : ℤ) : Prop := |n| ≤ 2 ^ 253

theorem Sizable.rounds {n : ℤ} (hn : Sizable n) : Rounds (Float.ofInt n) n :=
  .of_clip (place?_ofInt n) (by exact_mod_cast hn)

theorem Sizable.ofInt? {n : ℤ} (hn : Sizable n) : Scalar.ofInt? n = .ok (Float.ofInt n) := by
  have hfinite := hn.rounds.finite
  have hinf : (Float.ofInt n).isInf = false := by
    show (value (Float.ofInt n)).isInf = false
    cases h : value (Float.ofInt n) <;> simp_all [isFinite, isInf]
  show (if (Float.ofInt n).isInf then .error .overflow
    else .ok (Float.ofInt n) : Except Fault Float) = _
  rw [hinf]
  rfl

theorem eq_ofInt_of_ofInt? {n : ℤ} {x : Float} (h : Scalar.ofInt? n = .ok x) :
    x = Float.ofInt n := by
  change (if (Float.ofInt n).isInf then .error .overflow
    else .ok (Float.ofInt n) : Except Fault Float) = .ok x at h
  split_ifs at h
  exact (Except.ok.inj h).symm

/-- An integer is converted to the nearest double, if that is finite. -/
theorem rounds_of_ofInt? {n : ℤ} {x : Float} (h : Scalar.ofInt? n = .ok x) : Rounds x n := by
  have hplace := place?_ofInt n
  rw [← eq_ofInt_of_ofInt? h] at hplace
  have hinf : (value x).isInf = false := by
    change (if (Float.ofInt n).isInf then .error .overflow
      else .ok (Float.ofInt n) : Except Fault Float) = .ok x at h
    split_ifs at h with hinf
    obtain rfl := Except.ok.inj h
    exact Bool.eq_false_iff.mpr hinf
  have hfinite : (value x).isFinite = true := by
    rcases hv : value x with s | _ | s | ⟨s, m, e, hm⟩
    · rw [hv] at hinf
      cases hinf
    · rw [hv] at hplace
      cases hplace
    · rfl
    · rfl
  obtain ⟨p, hp, hlow, hhigh⟩ := isFinite_value_iff.mp hfinite
  obtain rfl : clip (nearestPlace n) = p := Option.some.inj (hplace.symm.trans hp)
  refine ⟨hfinite, hplace.trans (congrArg some ?_)⟩
  unfold clip at hlow hhigh ⊢
  omega

/-- No integer but zero is converted to zero. -/
theorem Sizable.same_zero {n : ℤ} (hn : Sizable n) (h : n ≠ 0) :
    Scalar.same (Float.ofInt n) 0.0 = false := by
  have hone : (1 : ℚ) ≤ |(n : ℚ)| := by exact_mod_cast Int.one_le_abs h
  have hstep : (2 : ℚ) ^ (-1074 : ℤ) ≤ 1 := zpow_le_one_of_nonpos₀ one_le_two (by norm_num)
  rw [Bool.eq_false_iff, ne_eq, same_zero_iff, hn.rounds.place, Option.some.injEq]
  exact nearestPlace_ne_zero (hstep.trans hone)

/-- The length of a range that increases is not zero. -/
theorem same_zero_sub {x y : Float} (h : Scalar.le y x = false) :
    Scalar.same (y - x) 0.0 = false := by
  have hne (hy : (value y).isFinite = true) (hx : (value x).isFinite = true) :
      place? (value y) ≠ place? (value x) := by
    intro heq
    have hle : Scalar.le y x = true :=
      scalar_le_iff.mpr ⟨_, _, place?_value hy, heq.symm.trans (place?_value hy), le_rfl⟩
    rw [h] at hle
    exact Bool.false_ne_true hle
  obtain ⟨hcanonical, hplace⟩ := sub_ne_zero (canonical_value y) (canonical_value x) hne
  have hvalue : value (y - x) = settle (sub Format.binary64 (value y) (value x)) :=
    value_pack hcanonical
  rw [Bool.eq_false_iff, ne_eq, same_zero_iff, hvalue, place?_settle hcanonical]
  intro hzero
  obtain ⟨p, hp, hclip⟩ := Option.map_eq_some_iff.mp hzero
  refine hplace (hp.trans (congrArg some ?_))
  have hinfinity : (0 : ℤ) < infinityRank := by decide
  unfold clip at hclip
  omega

/-- What is left of a whole after a share is taken away is a share. -/
theorem isShare_one_sub {x : Float} (h : Scalar.IsShare x) : Scalar.IsShare (1.0 - x) := by
  obtain ⟨hfinite, hx₀, hx₁⟩ := isShare_exact h
  have hone : Rounds 1.0 1 := exact_one ▸ Rounds.refl rfl
  have hrest : Rounds (1.0 - x) (1 - exact (value x)) := by
    have hrest := Rounds.sub (x := 1.0) (y := x) rfl hfinite
    rw [exact_one] at hrest
    refine hrest (abs_le.mpr ⟨?_, ?_⟩) <;> linarith
  constructor
  · exact scalar_le_iff.mpr ⟨_, _, Rounds.zero.place, hrest.place, nearestPlace_mono (by linarith)⟩
  · exact scalar_le_iff.mpr ⟨_, _, hrest.place, hone.place, nearestPlace_mono (by linarith)⟩

/-- The integer part of a number that is not positive is its ceiling. -/
theorem truncate_ofFloat_of_nonpos {x : Float} (hfinite : (value x).isFinite = true)
    (hx : exact (value x) ≤ 0) : (Dyadic.ofFloat x).truncate = ⌈exact (value x)⌉ := by
  cases h : value x with
  | notANumber => simp [h, isFinite] at hfinite
  | infinity s => simp [h, isFinite] at hfinite
  | zero s =>
    rw [ofFloat_zero h]
    show _ = ⌈(0 : ℚ)⌉
    rw [Int.ceil_zero]
    cases s <;> rfl
  | finite s m e hm =>
    cases s with
    | positive =>
      have hpos : (0 : ℚ) < m * 2 ^ e := by positivity
      rw [h, exact_finite, signed] at hx
      linarith
    | negative =>
      rw [ofFloat_finite h, exact_finite, signed, Int.ceil_neg, ← floor_zpow]
      rfl

/-- Integers of up to 53 digits are exact. -/
theorem exact_ofInt {n : ℤ} (hn : |n| ≤ 2 ^ 53) : exact (value (Float.ofInt n)) = n := by
  obtain ⟨hlow, hhigh⟩ := abs_le.mp hn
  cases n with
  | ofNat n => exact exact_ofNat (by rw [Int.ofNat_eq_natCast] at hhigh; exact_mod_cast hhigh)
  | negSucc n =>
    show exact (value (Float.ofNat (n + 1)).neg) = _
    rw [value_neg, exact_neg, exact_ofNat (by omega), Int.cast_negSucc]

/-- Integers have no negative zero. -/
theorem Sizable.value_ne {n : ℤ} (hn : Sizable n) : value (Float.ofInt n) ≠ .zero .negative := by
  rcases eq_or_ne n 0 with rfl | hzero
  · have hvalue : value (Float.ofInt 0) = .zero .positive := rfl
    rw [hvalue]
    simp
  · intro h
    have hsame := hn.same_zero hzero
    rw [Bool.eq_false_iff, ne_eq, same_zero_iff, h] at hsame
    exact hsame rfl

/-- A finite number that is an integer. -/
structure Whole (x : Float) (n : ℤ) : Prop where
  finite : (value x).isFinite = true
  exact_eq : exact (value x) = n

theorem Whole.ofInt {n : ℤ} (hn : |n| ≤ 2 ^ 53) : Whole (Float.ofInt n) n :=
  have hsize : Sizable n := hn.trans (by norm_num)
  ⟨hsize.rounds.finite, exact_ofInt hn⟩

theorem Whole.of_finite {x : Float} {s : Sign} {m : ℕ} {e n : ℤ} {hm : 0 < m}
    (h : value x = .finite s m e hm) (hn : signed s (m * 2 ^ e) = n) : Whole x n where
  finite := by rw [h]; rfl
  exact_eq := by rw [h, exact_finite, hn]

/-- Integers whose sum has at most 53 digits are added exactly. -/
theorem Whole.add {x y : Float} {a b : ℤ} (hx : Whole x a) (hy : Whole y b)
    (hab : |a + b| ≤ 2 ^ 53) : Whole (x + y) (a + b) := by
  have hsum : exact (value x) + exact (value y) = (a + b : ℤ) := by
    rw [hx.exact_eq, hy.exact_eq, Int.cast_add]
  have hsize : Sizable (a + b) := hab.trans (by norm_num)
  have hrounds := Rounds.add hx.finite hy.finite (by rw [hsum]; exact_mod_cast hsize)
  rw [hsum, ← exact_ofInt hab] at hrounds
  exact ⟨hrounds.finite, (hrounds.exact_eq hsize.rounds.finite rfl).trans (exact_ofInt hab)⟩

/-- Sums of integers are the same double once they are equal, but for negative zero. -/
theorem Whole.add_eq_add {x y x' y' : Float} {a b a' b' : ℤ} (hx : Whole x a) (hy : Whole y b)
    (hx' : Whole x' a') (hy' : Whole y' b') (hzero : value y ≠ .zero .negative)
    (hzero' : value y' ≠ .zero .negative) (h : a + b = a' + b') : x + y = x' + y' := by
  have hexact : exact (value x) + exact (value y) = exact (value x') + exact (value y') := by
    rw [hx.exact_eq, hy.exact_eq, hx'.exact_eq, hy'.exact_eq]
    exact_mod_cast h
  have hsum := Double.add_eq_add ⟨canonical_value x, hx.finite⟩ ⟨canonical_value y, hy.finite⟩
    ⟨canonical_value x', hx'.finite⟩ ⟨canonical_value y', hy'.finite⟩ hzero hzero' hexact
  exact congrArg (fun u => Float.ofModel (.pack u)) hsum

/-- An integer of up to 54 digits is rounded to one of no more. -/
theorem abs_exact_ofInt_le {n : ℤ} (hn : |n| ≤ 2 ^ 54) :
    |exact (value (Float.ofInt n))| ≤ 2 ^ 54 := by
  have hsize (m : ℤ) (hm : |m| ≤ 2 ^ 54) : Sizable m := hm.trans (by norm_num)
  have htop := (hsize (2 ^ 54) (abs_of_pos (by norm_num)).le).rounds
  rw [Int.cast_pow, Int.cast_ofNat] at htop
  have hexact : exact (value (Float.ofInt (2 ^ 54))) = 2 ^ 54 := by
    have hcanonical : Canonical (.finite .positive (2 ^ 52) 2 (by norm_num)) :=
      ⟨by norm_num, by norm_num, Or.inl le_rfl⟩
    have hvalue : exact (.finite .positive (2 ^ 52) 2 (by norm_num)) = 2 ^ 54 := by
      rw [exact_finite, signed]
      norm_num
    rw [← hvalue]
    refine exact_inj (canonical_value _) hcanonical htop.finite rfl ?_
    rw [htop.place, nearestPlace_exact hcanonical rfl, hvalue]
  obtain ⟨hlow, hhigh⟩ := abs_le.mp hn
  have hrounds := (hsize n hn).rounds
  have hbelow := hrounds.mono htop (by exact_mod_cast hhigh)
  have habove := htop.neg.mono hrounds (by exact_mod_cast hlow)
  rw [value_neg, exact_neg, hexact] at habove
  rw [hexact] at hbelow
  exact abs_le.mpr ⟨habove, hbelow⟩

theorem exact_ofInt_nonneg {n : ℤ} (hn : Sizable n) (h : 0 ≤ n) :
    0 ≤ exact (value (Float.ofInt n)) := hn.rounds.nonneg (by exact_mod_cast h)

theorem exact_ofInt_nonpos {n : ℤ} (hn : Sizable n) (h : n ≤ 0) :
    exact (value (Float.ofInt n)) ≤ 0 := hn.rounds.nonpos (by exact_mod_cast h)

/-- The integer part of a finite number lies between zero and every bound on the number. -/
theorem abs_truncate_le {x : Float} (hx : (value x).isFinite = true) {m : ℤ}
    (h : |exact (value x)| ≤ m) : |(Dyadic.ofFloat x).truncate| ≤ m ∧
      (0 ≤ exact (value x) → 0 ≤ (Dyadic.ofFloat x).truncate) ∧
      (exact (value x) ≤ 0 → (Dyadic.ofFloat x).truncate ≤ 0) := by
  obtain ⟨hlow, hhigh⟩ := abs_le.mp h
  rcases le_total 0 (exact (value x)) with hsign | hsign
  · have hfloor : (Dyadic.ofFloat x).truncate = ⌊exact (value x)⌋ :=
      truncate_ofFloat hx ((notNegative_iff (place?_value hx)).mpr (by
        simpa using nearestPlace_mono hsign))
    rw [hfloor, abs_of_nonneg (Int.floor_nonneg.mpr hsign)]
    refine ⟨Int.floor_le_iff.mpr (by linarith), fun _ => Int.floor_nonneg.mpr hsign, fun h => ?_⟩
    exact Int.floor_le_iff.mpr (by push_cast; linarith)
  · rw [truncate_ofFloat_of_nonpos hx hsign]
    have hceil : ⌈exact (value x)⌉ ≤ 0 := Int.ceil_le.mpr (by exact_mod_cast hsign)
    rw [abs_of_nonpos hceil, ← Int.floor_neg]
    refine ⟨Int.floor_le_iff.mpr (by linarith), fun h => ?_, fun _ => hceil⟩
    rw [le_antisymm hsign h, Int.ceil_zero]

/-- A share of an integer of up to 54 digits stands between zero and it, but for the rounding of 54
digits to 53. -/
theorem exists_scale?_of_isShare {n : ℤ} (hlow : -2 ^ 54 ≤ n) (hhigh : n ≤ 2 ^ 54) {x : Float}
    (hx : Scalar.IsShare x) : ∃ k, Scalar.scale? n x = .ok k ∧
      (0 ≤ n → 0 ≤ k ∧ k ≤ 2 ^ 54 ∧ (n ≤ 2 ^ 53 → k ≤ n)) ∧
      (n ≤ 0 → -2 ^ 54 ≤ k ∧ k ≤ 0 ∧ (-2 ^ 53 ≤ n → n ≤ k)) := by
  have hn : |n| ≤ 2 ^ 54 := abs_le.mpr ⟨hlow, hhigh⟩
  have hsize : Sizable n := hn.trans (by norm_num)
  obtain ⟨hfinite, hx₀, hx₁⟩ := isShare_exact hx
  have hn' := abs_exact_ofInt_le hn
  have hproduct : |exact (value (Float.ofInt n)) * exact (value x)| ≤
      |exact (value (Float.ofInt n))| := by
    rw [abs_mul, abs_of_nonneg hx₀]
    exact mul_le_of_le_one_right (abs_nonneg _) hx₁
  have hrounds := Rounds.mul hsize.rounds.finite hfinite
    (hproduct.trans (hn'.trans (by norm_num)))
  have hbound := hrounds.abs_le_abs hsize.rounds.finite hproduct
  have htop : |exact (value (Float.ofInt n * x))| ≤ (2 ^ 54 : ℤ) := by
    push_cast
    exact hbound.trans hn'
  have hscale : Scalar.scale? n x = .ok (Dyadic.ofFloat (Float.ofInt n * x)).truncate := by
    rw [Scalar.scale?, hsize.ofInt?, ok_bind]
    exact truncate?_eq_ok.mpr ⟨hrounds.finite, rfl⟩
  obtain ⟨hsmall, hpos, hneg⟩ := abs_truncate_le hrounds.finite htop
  have hinside (hn₅₃ : |n| ≤ 2 ^ 53) : |(Dyadic.ofFloat (Float.ofInt n * x)).truncate| ≤ |n| := by
    rw [exact_ofInt hn₅₃] at hbound
    exact (abs_truncate_le hrounds.finite (by exact_mod_cast hbound)).1
  refine ⟨_, hscale, fun h => ⟨?_, (abs_le.mp hsmall).2, fun h₅₃ => ?_⟩,
    fun h => ⟨(abs_le.mp hsmall).1, ?_, fun h₅₃ => ?_⟩⟩
  · exact hpos (hrounds.nonneg (mul_nonneg (exact_ofInt_nonneg hsize h) hx₀))
  · rw [abs_of_nonneg h] at hinside
    exact (abs_le.mp (hinside h₅₃)).2
  · exact hneg (hrounds.nonpos (mul_nonpos_of_nonpos_of_nonneg (exact_ofInt_nonpos hsize h) hx₀))
  · rw [abs_of_nonpos h] at hinside
    have := (abs_le.mp (hinside (by omega))).1
    omega

end TileWorld.Double
