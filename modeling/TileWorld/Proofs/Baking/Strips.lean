import TileWorld.Proofs.Region.Axis
import TileWorld.Sampler.Bake

/-! The strips of cells that heights are taken on: one cell along a direction, at the far edge of
the context, and the range of a pass across it. -/
namespace TileWorld.Sampler
variable {α : Type} {ctx pass view : Window} {d : Direction} {x y : ℤ}

theorem strip_axis : (strip ctx pass d).axis d = ⟨edge ctx d, edge ctx d + 1⟩ := by
  cases d <;> rfl

theorem strip_front : (strip ctx pass d).front d = pass.front d := by
  cases d <;> rfl

/-- Passes of one range across a direction have one strip. -/
theorem strip_congr (h : view.front d = pass.front d) : strip ctx view d = strip ctx pass d :=
  Window.eq_of_axis d (by rw [strip_axis, strip_axis]) (by rw [strip_front, strip_front, h])

theorem strip_nonempty (hpass : pass.isEmpty = false) (ctx : Window) (d : Direction) :
    (strip ctx pass d).isEmpty = false := by
  rw [Window.isEmpty_eq_false_iff] at hpass ⊢
  cases d
  · exact ⟨hpass.1, Int.lt_succ _⟩
  · exact ⟨hpass.1, Int.lt_succ _⟩
  · exact ⟨Int.lt_succ _, hpass.2⟩
  · exact ⟨Int.lt_succ _, hpass.2⟩

/-- The height at the edge of a context, in line with the cells of a coordinate across. -/
def edgeHeight? (s : BakedSampler α) (ctx : Window) (d : Direction) (n : ℤ) : Except Fault α :=
  if d.isVertical then s n (edge ctx d) else s (edge ctx d) n

theorem edgeHeight?_eq (h : (strip ctx pass d).contains x y = true) (s : BakedSampler α) :
    edgeHeight? s ctx d (d.across x y) = s x y := by
  obtain ⟨halong, -⟩ := (Window.contains_iff_axis _ d x y).mp h
  rw [strip_axis, Interval.contains_iff] at halong
  obtain hedge : d.along x y = edge ctx d := by
    dsimp only at halong
    omega
  rw [edgeHeight?, ← hedge]
  cases d <;> rfl

/-- Each line of cells that a pass crosses meets the strip. -/
theorem exists_strip_cell (h : pass.contains x y = true) (ctx : Window) (d : Direction) :
    ∃ u v, (strip ctx pass d).contains u v = true ∧ d.across u v = d.across x y := by
  obtain ⟨-, hacross⟩ := (Window.contains_iff_axis _ d x y).mp h
  obtain ⟨u, v, halong, hline⟩ := d.exists_cell (edge ctx d) (d.across x y)
  refine ⟨u, v, (Window.contains_iff_axis _ d u v).mpr ⟨?_, ?_⟩, hline⟩
  · rw [strip_axis, halong, Interval.contains_iff]
    exact ⟨le_rfl, Int.lt_succ _⟩
  · rwa [strip_front, hline]

end TileWorld.Sampler
