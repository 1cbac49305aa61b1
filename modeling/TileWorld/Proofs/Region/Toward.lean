import TileWorld.Proofs.Number.Ratio
import TileWorld.Proofs.Number.Scaled
import TileWorld.Proofs.Region.Exact
import TileWorld.Proofs.Region.Roomy

/-! How far cells lie in a direction, in doubles. Places are rounded to nearest, which keeps them in
order: a cell behind another lies no further. -/
namespace TileWorld
open Double (Rounds)

theorem Interval.rounds_local? {i : Interval} {n : ℤ} {x : Float} (h : i.local? n = .ok x) :
    Rounds x (i.place n) := by
  unfold local? at h
  unfold place
  split_ifs at h with hextent
  · obtain rfl := Except.ok.inj h
    rw [hextent, Int.cast_zero, div_zero]
    exact .zero
  · cases hx : Quotient.nearest? (n - i.start) i.extent with
    | none => simp [Scalar.quotient?, hx] at h
    | some y =>
      simp only [Scalar.quotient?, hx, Except.ok.injEq] at h
      exact h ▸ Quotient.rounds_of_nearest? hextent hx

namespace Window
variable {w : Window} {d : Direction} {x y x' y' : ℤ} {height : Float}

/-- In a direction of a window a cell lies below a height. -/
def Below (w : Window) (d : Direction) (height : Float) (x y : ℤ) : Prop :=
  ∃ pos, w.toward? d x y = .ok pos ∧ Scalar.lt pos height = true

/-- In a direction of a window a cell lies no further than another. -/
def NoFurther (w : Window) (d : Direction) (x' y' x y : ℤ) : Prop :=
  ∃ pos' pos : Float, w.toward? d x' y' = .ok pos' ∧ w.toward? d x y = .ok pos ∧
    Scalar.le pos' pos = true

theorem below_iff {pos : Float} (h : w.toward? d x y = .ok pos) :
    w.Below d height x y ↔ Scalar.lt pos height = true := by
  constructor
  · rintro ⟨pos', h', hlt⟩
    rwa [Except.ok.inj (h.symm.trans h')]
  · exact fun hlt => ⟨pos, h, hlt⟩

theorem Below.of_noFurther (h : w.Below d height x y) (h' : w.NoFurther d x' y' x y) :
    w.Below d height x' y' := by
  obtain ⟨pos', pos, hpos', hpos, hle⟩ := h'
  exact (below_iff hpos').mpr (Double.scalar_lt_of_le_of_lt hle ((below_iff hpos).mp h))

theorem noFurther_of_behind (hextent : 0 ≤ (w.axis d).extent) (h : d.Behind x' y' x y)
    (hpos' : ∃ pos : Float, w.toward? d x' y' = .ok pos)
    (hpos : ∃ pos : Float, w.toward? d x y = .ok pos) : w.NoFurther d x' y' x y := by
  obtain ⟨pos', hpos'⟩ := hpos'
  obtain ⟨pos, hpos⟩ := hpos
  refine ⟨pos', pos, hpos', hpos, ?_⟩
  obtain ⟨-, horder⟩ := h
  rw [toward?_eq_axis] at hpos' hpos
  split_ifs at horder hpos' hpos
  · exact (Interval.rounds_local? hpos').scalar_le (Interval.rounds_local? hpos)
      (Interval.place_mono hextent horder)
  · obtain ⟨u', hu', rfl⟩ := map_eq_ok.mp hpos'
    obtain ⟨u, hu, rfl⟩ := map_eq_ok.mp hpos
    have hrounds := Interval.rounds_local? hu
    have hrounds' := Interval.rounds_local? hu'
    exact Double.scalar_sub_le_sub_left hrounds.finite hrounds'.finite rfl
      (hrounds.scalar_le hrounds' (Interval.place_mono hextent horder))

end Window
end TileWorld
