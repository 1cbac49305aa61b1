import TileWorld.Proofs.Number.Reals
import TileWorld.Proofs.Region.Exact
import TileWorld.World.BiomeMap

/-! Outlines of climates in exact arithmetic. Along a row each of them reaches some distance from
the middle column to either side, so that it holds one run of the row's cells. -/
namespace TileWorld

namespace Shape

theorem fromMiddle_real (x : ℝ) : fromMiddle x = |x - 1 / 2| * 2 := by
  simp only [fromMiddle, Scalar.half_real, Scalar.zero_real, Scalar.two_real, Scalar.lt_real,
    zero_sub]
  split_ifs with h
  · rw [abs_of_neg h]
  · rw [abs_of_nonneg (not_lt.mp h)]

/-- How far an outline reaches from the middle column along a row, to the right or to the left. -/
noncomputable def reach (right : Bool) (y : ℝ) : Shape ℝ → ℝ
  | unspecified => 0
  | oval raise => √(1 / 4 - (1 / 2 - raise - y * (1 - raise)) ^ 2)
  | triangle top => (1 - (1 - y) * (1 - top)) / 2
  | rectangle sheer => (1 - sheer + (if right then y else 1 - y) * sheer) / 2

/-- A point lies within an outline when it is nearer to the middle column than the outline reaches
on its side. -/
theorem inside?_real {shape : Shape ℝ} (h : shape ≠ .unspecified) (x y : ℝ) :
    shape.inside? x y = .ok (decide (|x - 1 / 2| < shape.reach (decide (1 / 2 < x)) y)) := by
  cases shape with
  | unspecified => exact absurd rfl h
  | oval raise =>
    have hsquare : (1 / 2 - x) * (1 / 2 - x) = |x - 1 / 2| ^ 2 := by rw [sq_abs]; ring
    simp only [inside?, Scalar.half_real, Scalar.one_real]
    refine congrArg Except.ok (decide_eq_decide.mpr ?_)
    show √((1 / 2 - x) * (1 / 2 - x) + _) < 1 / 2 ↔ |x - 1 / 2| < √_
    rw [Real.sqrt_lt' one_half_pos, Real.lt_sqrt (abs_nonneg _), hsquare]
    constructor
    · intro hin
      linarith
    · intro hin
      linarith
  | triangle top =>
    simp only [inside?, Scalar.one_real, fromMiddle_real]
    refine congrArg Except.ok (decide_eq_decide.mpr ?_)
    rw [reach, lt_div_iff₀ two_pos]
    exact lt_sub_iff_add_lt.symm
  | rectangle sheer =>
    simp only [inside?, Scalar.half_real, Scalar.one_real, fromMiddle_real]
    refine congrArg Except.ok (decide_eq_decide.mpr ?_)
    rw [reach, lt_div_iff₀ two_pos]
    rfl

/-- An outline has no holes along a row, also where it leaves one side for the other. -/
theorem inside?_between {shape : Shape ℝ} {y x₁ x₂ x₃ : ℝ} (h₁₂ : x₁ ≤ x₂) (h₂₃ : x₂ ≤ x₃)
    (h₁ : shape.inside? x₁ y = .ok true) (h₃ : shape.inside? x₃ y = .ok true) :
    shape.inside? x₂ y = .ok true := by
  have hshape : shape ≠ .unspecified := by
    rintro rfl
    cases h₁
  rw [inside?_real hshape, Except.ok.injEq, decide_eq_true_iff] at h₁ h₃ ⊢
  rcases le_or_gt x₂ (1 / 2) with hleft | hright
  · -- to the left of the middle, nearer to it than the first point
    have hleft₁ := h₁₂.trans hleft
    rw [decide_eq_false hleft₁.not_gt, abs_of_nonpos (sub_nonpos.mpr hleft₁)] at h₁
    rw [decide_eq_false hleft.not_gt, abs_of_nonpos (sub_nonpos.mpr hleft)]
    linarith
  · -- to the right of the middle, nearer to it than the last point
    have hright₃ := hright.trans_le h₂₃
    rw [decide_eq_true hright₃, abs_of_pos (sub_pos.mpr hright₃)] at h₃
    rw [decide_eq_true hright, abs_of_pos (sub_pos.mpr hright)]
    linarith

theorem inside?_mirrored {shape : Shape ℝ} (hshape : shape ≠ .unspecified) {y : ℝ}
    (hsides : shape.reach true y = shape.reach false y) (x : ℝ) :
    shape.inside? (1 - x) y = shape.inside? x y := by
  have hreach (right : Bool) : shape.reach right y = shape.reach true y := by
    cases right
    · exact hsides.symm
    · rfl
  have hdistance : |1 - x - 1 / 2| = |x - 1 / 2| := by
    rw [← abs_neg]
    ring_nf
  rw [inside?_real hshape, inside?_real hshape, hdistance, hreach, hreach (decide (1 / 2 < x))]

/-- A triangle that is not wider at its top than its rectangle does not narrow downward. -/
theorem inside?_triangle_below {top x y y' : ℝ} (htop : top ≤ 1) (hy : y ≤ y')
    (h : (triangle top).inside? x y = .ok true) : (triangle top).inside? x y' = .ok true := by
  have hshape : triangle top ≠ .unspecified := by simp
  rw [inside?_real hshape, Except.ok.injEq, decide_eq_true_iff] at h ⊢
  refine h.trans_le ?_
  simp only [reach]
  have hnarrow : (1 - y') * (1 - top) ≤ (1 - y) * (1 - top) :=
    mul_le_mul_of_nonneg_right (sub_le_sub_left hy 1) (sub_nonneg.mpr htop)
  linarith

end Shape

namespace Interval

theorem local?_real (i : Interval) (n : ℤ) : i.local? n = .ok (i.place n : ℝ) := by
  unfold local? place
  split_ifs with hextent
  · rw [hextent, Int.cast_zero, div_zero, Rat.cast_zero, Scalar.zero_real]
  · show Except.ok _ = _
    push_cast
    rfl

/-- The numbers of an interval with a property that has no holes form one run. -/
theorem exists_run (i : Interval) {p : ℤ → Prop}
    (h : ∀ a b c, i.contains a = true → i.contains c = true → a ≤ b → b ≤ c → p a → p c → p b) :
    ∃ run : Interval, ∀ n, i.contains n = true → (p n ↔ run.contains n = true) := by
  by_cases hsome : ∃ n, i.contains n = true ∧ p n
  · obtain ⟨first, ⟨hfirst, hpfirst⟩, hleast⟩ := Int.exists_least_of_bdd
      ⟨i.start, fun n hn => ((i.contains_iff n).mp hn.1).1⟩ hsome
    obtain ⟨last, ⟨hlast, hplast⟩, hgreatest⟩ := Int.exists_greatest_of_bdd
      ⟨i.stop, fun n hn => ((i.contains_iff n).mp hn.1).2.le⟩ hsome
    refine ⟨⟨first, last + 1⟩, fun n hn => ?_⟩
    rw [contains_iff, Int.lt_add_one_iff]
    constructor
    · intro hp
      exact ⟨hleast n ⟨hn, hp⟩, hgreatest n ⟨hn, hp⟩⟩
    · rintro ⟨hlow, hhigh⟩
      exact h first n last hfirst hlast hlow hhigh hpfirst hplast
  · refine ⟨⟨0, 0⟩, fun n hn => iff_of_false (fun hp => hsome ⟨n, hn, hp⟩) ?_⟩
    rw [contains_iff]
    exact fun hn => (hn.1.trans_lt hn.2).false

end Interval

namespace Generator
variable {area : Window} {shape : Shape ℝ}

theorem within?_real (area : Window) (shape : Shape ℝ) (x y : ℤ) :
    within? area (some shape) x y = shape.inside? (area.columns.place x) (area.rows.place y) := by
  simp only [within?, Interval.local?_real, ok_bind]

/-- The cells of a row that an outline lets through form one run. -/
theorem exists_run_within? (hshape : shape ≠ .unspecified) (area : Window) (y : ℤ) :
    ∃ run : Interval, ∀ x, area.columns.contains x = true →
      within? area (some shape) x y = .ok (run.contains x) := by
  have hholes (a b c : ℤ) (ha : area.columns.contains a = true)
      (hc : area.columns.contains c = true) (hab : a ≤ b) (hbc : b ≤ c)
      (hin : within? area (some shape) a y = .ok true)
      (hin' : within? area (some shape) c y = .ok true) :
      within? area (some shape) b y = .ok true := by
    have hextent := (Interval.Holds.of_contains ha).extent_nonneg
    have hplace {m n : ℤ} (hmn : m ≤ n) : (area.columns.place m : ℝ) ≤ area.columns.place n := by
      exact_mod_cast Interval.place_mono hextent hmn
    rw [within?_real] at hin hin' ⊢
    exact Shape.inside?_between (hplace hab) (hplace hbc) hin hin'
  obtain ⟨run, hrun⟩ := area.columns.exists_run hholes
  refine ⟨run, fun x hx => ?_⟩
  have hiff := hrun x hx
  rw [within?_real, Shape.inside?_real hshape, Except.ok.injEq] at hiff ⊢
  exact Bool.eq_iff_iff.mpr hiff

end Generator

namespace Shape

/-- Outlines are definite and have no holes along a row, whatever their parameter and on whichever
side of the middle the points lie, so that they let one run of cells through in every row of an
area. Ovals and triangles are the same from the left as from the right, and a triangle whose top is
not wider than its rectangle does not narrow downward. -/
theorem rows_unbroken :
    (∀ shape : Shape ℝ, shape ≠ .unspecified →
      (∀ x y, ∃ inside, shape.inside? x y = .ok inside) ∧
      (∀ y x₁ x₂ x₃, x₁ ≤ x₂ → x₂ ≤ x₃ → shape.inside? x₁ y = .ok true →
        shape.inside? x₃ y = .ok true → shape.inside? x₂ y = .ok true) ∧
      ∀ (area : Window) (y : ℤ), ∃ run : Interval, ∀ x, area.columns.contains x = true →
        Generator.within? area (some shape) x y = .ok (run.contains x)) ∧
    (∀ raise x y : ℝ, (oval raise).inside? (1 - x) y = (oval raise).inside? x y) ∧
    (∀ top x y : ℝ, (triangle top).inside? (1 - x) y = (triangle top).inside? x y) ∧
    ∀ top x y y' : ℝ, top ≤ 1 → y ≤ y' → (triangle top).inside? x y = .ok true →
      (triangle top).inside? x y' = .ok true := by
  refine ⟨fun shape hshape => ⟨fun x y => ⟨_, inside?_real hshape x y⟩, ?_, ?_⟩, ?_, ?_, ?_⟩
  · intro y x₁ x₂ x₃ h₁₂ h₂₃ h₁ h₃
    exact inside?_between h₁₂ h₂₃ h₁ h₃
  · exact Generator.exists_run_within? hshape
  · exact fun raise x y => inside?_mirrored (by simp) rfl x
  · exact fun top x y => inside?_mirrored (by simp) rfl x
  · exact fun top x y y' htop hy h => inside?_triangle_below htop hy h

/-- In the middle row, sides that lean by one and a half leave the middle quarter of a rectangle. -/
theorem rows_unbroken_sample :
    (∀ x : ℝ, 2 / 5 ≤ x → x ≤ 3 / 5 → (rectangle (3 / 2)).inside? x (1 / 2) = .ok true) ∧
      (∃ run : Interval, ∀ x, (⟨3, 19⟩ : Interval).contains x = true →
        Generator.within? ⟨⟨3, 19⟩, ⟨4, 8⟩⟩ (some (rectangle (3 / 2 : ℝ))) x 6 =
          .ok (run.contains x)) ∧
      (triangle (1 / 2 : ℝ)).inside? (1 / 4) 1 = .ok true := by
  obtain ⟨hshapes, -, -, htriangle⟩ := rows_unbroken
  have hrectangle : rectangle (3 / 2 : ℝ) ≠ .unspecified := by simp
  obtain ⟨-, hbetween, hrows⟩ := hshapes _ hrectangle
  have hends : (rectangle (3 / 2 : ℝ)).inside? (2 / 5) (1 / 2) = .ok true ∧
      (rectangle (3 / 2 : ℝ)).inside? (3 / 5) (1 / 2) = .ok true := by
    simp only [inside?_real hrectangle, reach]
    norm_num [abs_lt]
  refine ⟨fun x hlow hhigh => hbetween _ _ x _ hlow hhigh hends.1 hends.2,
    hrows ⟨⟨3, 19⟩, ⟨4, 8⟩⟩ 6, htriangle _ _ (1 / 2) _ (by norm_num) (by norm_num) ?_⟩
  rw [inside?_real (by simp), reach]
  norm_num [abs_lt]

end Shape
end TileWorld
