import TileWorld.Proofs.Number.Division

/-! Where non-numbers come from. Comparisons with one are false, whichever way round, and sums and
quotients of finite numbers never are one unless the divisor is zero. -/
namespace TileWorld.Double
open Float.Model (UnpackedFloat Format)
open Float.Model.UnpackedFloat

theorem isNaN_eq_false_iff {x : Float} : x.isNaN = false ↔ ∃ p, place? (value x) = some p := by
  constructor
  · exact fun h => ⟨_, place?_eq_place h⟩
  · rintro ⟨p, hp⟩
    show (value x).isNaN = false
    cases hx : value x with
    | notANumber =>
      rw [hx] at hp
      cases hp
    | infinity s => rfl
    | zero s => rfl
    | finite s m e hm => rfl

theorem isNaN_of_isFinite {x : Float} (h : (value x).isFinite = true) : x.isNaN = false :=
  isNaN_eq_false_iff.mpr ⟨_, place?_value h⟩

theorem isNaN_of_le {x y : Float} (h : Scalar.le x y = true) : x.isNaN = false ∧ y.isNaN = false := by
  obtain ⟨a, b, ha, hb, -⟩ := scalar_le_iff.mp h
  exact ⟨isNaN_eq_false_iff.mpr ⟨a, ha⟩, isNaN_eq_false_iff.mpr ⟨b, hb⟩⟩

/-- Of two numbers one is less than the other, unless it is no less. -/
theorem not_le_iff_lt {x y : Float} (hx : x.isNaN = false) (hy : y.isNaN = false) :
    Scalar.le y x = false ↔ Scalar.lt x y = true := by
  rw [Bool.eq_false_iff, ne_eq, scalar_le_iff, scalar_lt_iff, place?_eq_place hx, place?_eq_place hy]
  simp

theorem not_lt_iff_le {x y : Float} (hx : x.isNaN = false) (hy : y.isNaN = false) :
    Scalar.lt y x = false ↔ Scalar.le x y = true := by
  rw [Bool.eq_false_iff, ne_eq, scalar_le_iff, scalar_lt_iff, place?_eq_place hx, place?_eq_place hy]
  simp

/-- What is not refused as too great is less, unless one of the two is a non-number. -/
theorem lt_iff_isNaN_of_not_le {x y : Float} (h : Scalar.le y x = false) :
    Scalar.lt x y = true ↔ x.isNaN = false ∧ y.isNaN = false := by
  constructor
  · exact fun hlt => isNaN_of_le (scalar_le_of_lt hlt)
  · exact fun hnumbers => (not_le_iff_lt hnumbers.1 hnumbers.2).mp h

theorem not_le_of_lt {x y : Float} (h : Scalar.lt x y = true) : Scalar.le y x = false := by
  obtain ⟨hx, hy⟩ := isNaN_of_le (scalar_le_of_lt h)
  exact (not_le_iff_lt hx hy).mpr h

/-- What lies between finite numbers is finite. -/
theorem isFinite_of_between {x y z : Float} (hx : (value x).isFinite = true)
    (hz : (value z).isFinite = true) (hxy : Scalar.le x y = true) (hyz : Scalar.le y z = true) :
    (value y).isFinite = true := by
  obtain ⟨a, b, ha, hb, hab⟩ := scalar_le_iff.mp hxy
  obtain ⟨b', c, hb', hc, hbc⟩ := scalar_le_iff.mp hyz
  obtain ⟨a', ha', hlow, -⟩ := isFinite_value_iff.mp hx
  obtain ⟨c', hc', -, hhigh⟩ := isFinite_value_iff.mp hz
  obtain rfl : b = b' := Option.some.inj (hb.symm.trans hb')
  obtain rfl : a = a' := Option.some.inj (ha.symm.trans ha')
  obtain rfl : c = c' := Option.some.inj (hc.symm.trans hc')
  exact isFinite_value_iff.mpr ⟨b, hb, by omega, by omega⟩

/-- An infinite number outweighs a finite one. -/
theorem exists_add_eq_infinity {u v : UnpackedFloat} (hu : u.isNaN = false) (hv : v.isNaN = false)
    (hfinite : u.isFinite = true ∨ v.isFinite = true)
    (hinfinite : ¬(u.isFinite = true ∧ v.isFinite = true)) :
    ∃ s, add Format.binary64 u v = .infinity s := by
  rcases u with s | _ | s | ⟨s, m, e, hm⟩ <;> rcases v with t | _ | t | ⟨t, n, f, hn⟩ <;>
    first
    | exact absurd ⟨rfl, rfl⟩ hinfinite
    | exact ⟨_, rfl⟩
    | exact absurd hu (Ne.symm Bool.false_ne_true)
    | exact absurd hv (Ne.symm Bool.false_ne_true)
    | exact absurd hfinite (not_or.mpr ⟨Bool.false_ne_true, Bool.false_ne_true⟩)

/-- Two numbers have a sum that is a number, unless both are infinite. -/
theorem isNaN_add {x y : Float} (hx : x.isNaN = false) (hy : y.isNaN = false)
    (hfinite : (value x).isFinite = true ∨ (value y).isFinite = true) : (x + y).isNaN = false := by
  by_cases hboth : (value x).isFinite = true ∧ (value y).isFinite = true
  · exact isNaN_eq_false_iff.mpr ⟨_, place?_add hboth.1 hboth.2⟩
  · obtain ⟨s, hs⟩ := exists_add_eq_infinity (u := value x) (v := value y) hx hy hfinite hboth
    show (value (.ofModel (.pack (add Format.binary64 (value x) (value y))))).isNaN = false
    rw [hs, value_pack (u := .infinity s) trivial]
    rfl

/-- A finite number divided by a positive one is a number. -/
theorem isNaN_div {x y : Float} (hx : (value x).isFinite = true) (hy : Scalar.lt 0.0 y = true) :
    (x / y).isNaN = false := by
  rcases pos_cases hy with ⟨hfinite, -⟩ | hinfinite
  · exact isNaN_eq_false_iff.mpr ⟨_, place?_div hx hfinite (same_zero_of_pos hy)⟩
  · exact isNaN_eq_false_iff.mpr ⟨0, hinfinite x hx⟩

/-- Only finite numbers can be divided by an infinite one. -/
theorem isFinite_of_isNaN_div {x y : Float} (hy : y.isNaN = false)
    (hinfinite : (value y).isFinite = false) (h : (x / y).isNaN = false) :
    (value x).isFinite = true := by
  change (value y).isNaN = false at hy
  change (value (.ofModel (.pack (div Format.binary64 (value x) (value y))))).isNaN = false at h
  generalize value x = u, value y = v at *
  rcases v with t | _ | t | ⟨t, n, f, hn⟩ <;> try contradiction
  rcases u with s | _ | s | ⟨s, m, e, hm⟩
  · rw [show div Format.binary64 (.infinity s) (.infinity t) = .notANumber from rfl,
      value_pack (u := .notANumber) trivial] at h
    cases h
  · rw [show div Format.binary64 .notANumber (.infinity t) = .notANumber from rfl,
      value_pack (u := .notANumber) trivial] at h
    cases h
  · rfl
  · rfl

section Sums
variable {weights : List Float}

theorem ne_nil_of_sum_pos (h : Scalar.lt 0.0 (Scalar.sum weights) = true) : weights ≠ [] := by
  rintro rfl
  exact scalar_lt_irrefl 0.0 h

theorem isFinite_of_sum (hsum : (value (Scalar.sum weights)).isFinite = true) :
    ∀ w ∈ weights, (value w).isFinite = true := by
  have hfold (total : Float) (h : (value (weights.foldl (· + ·) total)).isFinite = true) :
      (value total).isFinite = true ∧ ∀ w ∈ weights, (value w).isFinite = true := by
    clear hsum
    induction weights generalizing total with
    | nil => exact ⟨h, by simp⟩
    | cons w rest ih =>
      obtain ⟨htotal, hrest⟩ := ih (total + w) h
      obtain ⟨htotal, hw⟩ := isFinite_of_add htotal
      exact ⟨htotal, List.forall_mem_cons.mpr ⟨hw, hrest⟩⟩
  exact (hfold 0.0 hsum).2

theorem isNaN_sum (h : ∀ w ∈ weights, (value w).isFinite = true) :
    (Scalar.sum weights).isNaN = false := by
  have hfold (total : Float) (htotal : total.isNaN = false) :
      (weights.foldl (· + ·) total).isNaN = false := by
    induction weights generalizing total with
    | nil => exact htotal
    | cons w rest ih =>
      rw [List.forall_mem_cons] at h
      exact ih h.2 _ (isNaN_add htotal (isNaN_of_isFinite h.1) (Or.inr h.1))
  exact hfold 0.0 rfl

/-- Weights can be shared out if they have a positive total, by which each divides to a number. -/
theorem shared_iff_isFinite (h : Scalar.le (Scalar.sum weights) 0.0 = false) :
    (Scalar.lt 0.0 (Scalar.sum weights) = true ∧
        ∀ w ∈ weights, (w / Scalar.sum weights).isNaN = false) ↔
      ∀ w ∈ weights, (value w).isFinite = true := by
  constructor
  · rintro ⟨hpos, hshares⟩ w hw
    by_cases hfinite : (value (Scalar.sum weights)).isFinite = true
    · exact isFinite_of_sum hfinite w hw
    · exact isFinite_of_isNaN_div (isNaN_of_le (scalar_le_of_lt hpos)).2
        (Bool.eq_false_iff.mpr hfinite) (hshares w hw)
  · intro hfinite
    have hpos := (lt_iff_isNaN_of_not_le h).mpr ⟨rfl, isNaN_sum hfinite⟩
    exact ⟨hpos, fun w hw => isNaN_div (hfinite w hw) hpos⟩

end Sums
end TileWorld.Double
