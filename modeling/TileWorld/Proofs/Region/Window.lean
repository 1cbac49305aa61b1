import Mathlib.Tactic
import TileWorld.Region.Context

/-! The cells of windows: each is visited once, and an empty window has none. -/
namespace TileWorld

namespace Interval

theorem nodup_toList (i : Interval) : i.toList.Nodup := by
  refine List.Nodup.map (fun a b hab => ?_) List.nodup_range
  omega

theorem pairwise_toList (i : Interval) : i.toList.Pairwise (· < ·) := by
  unfold toList
  rw [List.pairwise_map]
  exact List.pairwise_lt_range.imp fun {a b} hlt => by omega

end Interval

namespace Window

theorem contains_iff (w : Window) (x y : Int) :
    w.contains x y = true ↔ (w.columns.start ≤ x ∧ x < w.columns.stop) ∧
      (w.rows.start ≤ y ∧ y < w.rows.stop) := by
  rw [contains, Bool.and_eq_true, Interval.contains_iff, Interval.contains_iff]

theorem nodup_cells (w : Window) : w.cells.Nodup := by
  unfold cells
  rw [List.nodup_flatMap]
  constructor
  · intro y hy
    refine List.Nodup.map (fun a b hab => ?_) w.columns.nodup_toList
    exact congrArg Prod.fst hab
  · refine w.rows.nodup_toList.imp fun {a b} hab => ?_
    simp only [Function.onFun, List.disjoint_left, List.mem_map]
    rintro c ⟨x, -, rfl⟩ ⟨x', -, h⟩
    exact hab (congrArg Prod.snd h).symm

/-- The cells of a window run along its rows, one row after another. -/
theorem pairwise_cells (w : Window) :
    w.cells.Pairwise fun c d => c.2 < d.2 ∨ c.2 = d.2 ∧ c.1 < d.1 := by
  unfold cells
  rw [List.pairwise_flatMap]
  constructor
  · intro y hy
    rw [List.pairwise_map]
    exact w.columns.pairwise_toList.imp fun hlt => .inr ⟨rfl, hlt⟩
  · refine w.rows.pairwise_toList.imp fun {a b} hlt c hc d hd => ?_
    obtain ⟨x, -, rfl⟩ := List.mem_map.mp hc
    obtain ⟨x', -, rfl⟩ := List.mem_map.mp hd
    exact .inl hlt

theorem isEmpty_iff (w : Window) :
    w.isEmpty = true ↔ w.columns.stop ≤ w.columns.start ∨ w.rows.stop ≤ w.rows.start := by
  unfold isEmpty width height Interval.extent
  rw [Bool.or_eq_true, decide_eq_true_iff, decide_eq_true_iff]
  omega

theorem isEmpty_eq_false_iff (w : Window) :
    w.isEmpty = false ↔ w.columns.start < w.columns.stop ∧ w.rows.start < w.rows.stop := by
  rw [Bool.eq_false_iff, ne_eq, isEmpty_iff, not_or, not_le, not_le]

/-- A window is empty exactly when it contains no cell. -/
theorem isEmpty_eq_true_iff (w : Window) :
    w.isEmpty = true ↔ ∀ x y, w.contains x y = false := by
  rw [isEmpty_iff]
  constructor
  · intro h x y
    rw [Bool.eq_false_iff, ne_eq, contains_iff]
    omega
  · intro h
    have := h w.columns.start w.rows.start
    rw [Bool.eq_false_iff, ne_eq, contains_iff] at this
    omega

theorem isEmpty_of_contains {w : Window} {x y : Int} (h : w.contains x y = true) :
    w.isEmpty = false := by
  rw [Bool.eq_false_iff, ne_eq, isEmpty_eq_true_iff]
  intro hempty
  rw [hempty x y] at h
  exact Bool.noConfusion h

end Window
end TileWorld
