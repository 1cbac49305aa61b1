import TileWorld.Proofs.Outcome
import TileWorld.Proofs.Region.Window

/-! The axis of a direction and the axis across it. Up and right go along with the coordinates, down
and left against them. -/
namespace TileWorld

namespace Direction

/-- Whether coordinates grow in the direction. -/
def ascends : Direction → Bool
  | .up | .right => true
  | .down | .left => false

/-- The coordinate of a cell that changes in the direction. -/
def along (d : Direction) (x y : ℤ) : ℤ := if d.isVertical then y else x

/-- The coordinate of a cell that stays in the direction. -/
def across (d : Direction) (x y : ℤ) : ℤ := if d.isVertical then x else y

/-- A cell is given by its coordinates along a direction and across it. -/
theorem exists_cell (d : Direction) (m n : ℤ) : ∃ x y, d.along x y = m ∧ d.across x y = n := by
  cases d
  · exact ⟨n, m, rfl, rfl⟩
  · exact ⟨n, m, rfl, rfl⟩
  · exact ⟨m, n, rfl, rfl⟩
  · exact ⟨m, n, rfl, rfl⟩

/-- A cell in line with another in a direction, and not past it. -/
def Behind (d : Direction) (x' y' x y : ℤ) : Prop :=
  d.across x' y' = d.across x y ∧
    if d.ascends then d.along x' y' ≤ d.along x y else d.along x y ≤ d.along x' y'

end Direction

namespace Window
variable (w : Window) (d : Direction)

/-- The interval of a window in a direction. -/
def axis : Interval := if d.isVertical then w.rows else w.columns

/-- The interval of a window across a direction. -/
def front : Interval := if d.isVertical then w.columns else w.rows

theorem contains_iff_axis (x y : ℤ) : w.contains x y = true ↔
    (w.axis d).contains (d.along x y) = true ∧ (w.front d).contains (d.across x y) = true := by
  rw [contains, Bool.and_eq_true]
  cases d
  · exact and_comm
  · exact and_comm
  · exact Iff.rfl
  · exact Iff.rfl

/-- The way in a direction is the place in its axis, or what is left from there to the end. -/
theorem toward?_eq_axis {α : Type} [Scalar α] (x y : ℤ) : (w.toward? d x y : Except Fault α) =
    if d.ascends then (w.axis d).local? (d.along x y)
    else (1.0 - ·) <$> (w.axis d).local? (d.along x y) := by
  cases d
  · rfl
  · exact bind_pure_comp _ _
  · exact bind_pure_comp _ _
  · rfl

/-- A window is given by its axes. -/
theorem eq_of_axis {w w' : Window} (d : Direction) (haxis : w.axis d = w'.axis d)
    (hfront : w.front d = w'.front d) : w = w' := by
  obtain ⟨columns, rows⟩ := w
  obtain ⟨columns', rows'⟩ := w'
  cases d
  · exact congrArg₂ mk hfront haxis
  · exact congrArg₂ mk hfront haxis
  · exact congrArg₂ mk haxis hfront
  · exact congrArg₂ mk haxis hfront

end Window

theorem Context.eq_of_axis {c c' : Context} (d : Direction) (haxis : c.axis d = c'.axis d)
    (hfront : c.front d = c'.front d) (hworld : c.world = c'.world) : c = c' := by
  obtain ⟨window, world⟩ := c
  obtain ⟨window', world'⟩ := c'
  exact congrArg₂ mk (Window.eq_of_axis d haxis hfront) hworld

end TileWorld
