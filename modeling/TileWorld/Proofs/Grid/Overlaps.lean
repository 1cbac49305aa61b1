import TileWorld.Proofs.Grid.Disjoint

/-! What the overlap of two views says about the cells they share: views that share a cell overlap,
and views that overlap share one unless a window is empty. -/
namespace TileWorld

/-- Two intervals have an integer in common when each starts before the other stops and neither is
empty. -/
theorem Interval.exists_contains_both_iff (i j : Interval) :
    (∃ n, i.contains n = true ∧ j.contains n = true) ↔
      (i.start < j.stop ∧ j.start < i.stop) ∧ i.start < i.stop ∧ j.start < j.stop := by
  constructor
  · intro h
    obtain ⟨n, hi, hj⟩ := h
    rw [contains_iff] at hi hj
    omega
  · intro h
    -- the later of the starts is in both
    refine ⟨max i.start j.start, ?_, ?_⟩
    · rw [contains_iff]
      omega
    · rw [contains_iff]
      omega

/-- The overlap test is exact for windows that are not empty; an empty one shares no cell, wherever
its ends lie. -/
theorem Window.exists_contains_both_iff (w v : Window) :
    (∃ x y, w.contains x y = true ∧ v.contains x y = true) ↔
      w.overlaps v = true ∧ w.isEmpty = false ∧ v.isEmpty = false := by
  have hcolumns := w.columns.exists_contains_both_iff v.columns
  have hrows := w.rows.exists_contains_both_iff v.rows
  constructor
  · intro h
    obtain ⟨x, y, hw, hv⟩ := h
    exact ⟨overlaps_of_contains hw hv, isEmpty_of_contains hw, isEmpty_of_contains hv⟩
  · intro h
    obtain ⟨hover, hw, hv⟩ := h
    rw [isEmpty_eq_false_iff] at hw hv
    simp only [overlaps, Bool.and_eq_true, decide_eq_true_iff] at hover
    obtain ⟨x, hwx, hvx⟩ := hcolumns.mpr ⟨hover.1.1, hw.1, hv.1⟩
    obtain ⟨y, hwy, hvy⟩ := hrows.mpr ⟨⟨hover.1.2, hover.2⟩, hw.2, hv.2⟩
    refine ⟨x, y, ?_, ?_⟩
    · rw [contains, hwx, hwy, Bool.and_self]
    · rw [contains, hvx, hvy, Bool.and_self]

theorem Window.overlaps_comm (w v : Window) : w.overlaps v = v.overlaps w := by
  rw [Bool.eq_iff_iff]
  simp only [overlaps, Bool.and_eq_true, decide_eq_true_iff]
  tauto

namespace View

/-- A view that one of the grids let through. -/
def Of (grids : List Grid) (v : View) : Prop :=
  ∃ g, grids[v.source]? = some g ∧ g.view? v.window = .ok v.window

/-- A view lets a cell be read, and be given any value that its grid can store. -/
def Accepts (grids : List Grid) (v : View) (x y : Int) : Prop :=
  ∃ g, grids[v.source]? = some g ∧ (∃ u, g.getIn? v.window x y = .ok u) ∧
    ∀ u stored, g.cellType.cast? u = .ok stored → ∃ g', g.insertIn? v.window x y u = .ok g'

/-- Both views accept one cell of one grid. -/
def Share (grids : List Grid) (v w : View) : Prop :=
  v.source = w.source ∧ ∃ x y, v.Accepts grids x y ∧ w.Accepts grids x y

variable {grids : List Grid} {v w : View}

/-- The cells that a view accepts are those of its window, since its grid has them all. -/
theorem Of.accepts_iff (hv : v.Of grids) (x y : Int) :
    v.Accepts grids x y ↔ v.window.contains x y = true := by
  obtain ⟨g, hg, hview⟩ := hv
  obtain ⟨hholds, -⟩ := Grid.view?_eq_ok.mp hview
  constructor
  · intro h
    obtain ⟨g', -, ⟨u, hu⟩, -⟩ := h
    by_contra hout
    rw [Grid.getIn?, if_neg hout] at hu
    cases hu
  · intro hin
    have hcell := (Grid.window_contains g x y).mp (hholds.window_contains hin)
    obtain ⟨u, hu⟩ := Grid.exists_cell?.mpr hcell
    obtain ⟨i, hi, -⟩ := Option.map_eq_some_iff.mp hu
    refine ⟨g, hg, ⟨u, ?_⟩, fun u stored hcast => ⟨g.put i stored, ?_⟩⟩
    · rw [Grid.getIn?, if_pos hin]
      exact Grid.get?_eq_ok.mpr hu
    · rw [Grid.insertIn?, if_pos hin, Grid.insert?, Grid.admit?, hi]
      simp only [hcast, ok_bind, pure_eq_ok]

theorem overlaps_comm (v w : View) : v.overlaps w = w.overlaps v := by
  rw [overlaps, overlaps, Window.overlaps_comm, Bool.beq_comm]

/-- Views share a cell exactly when they overlap and neither is empty. So views that share a cell
overlap, but an empty view may overlap a view with which it has nothing in common. Overlap is
symmetric, and views of different grids never overlap. -/
theorem share_iff_overlaps (hv : v.Of grids) (hw : w.Of grids) :
    (Share grids v w ↔
        v.overlaps w = true ∧ v.window.isEmpty = false ∧ w.window.isEmpty = false) ∧
      v.overlaps w = w.overlaps v ∧ (v.source ≠ w.source → v.overlaps w = false) := by
  refine ⟨?_, overlaps_comm v w, ?_⟩
  · have hboth := v.window.exists_contains_both_iff w.window
    simp only [Share, hv.accepts_iff, hw.accepts_iff, hboth, overlaps, Bool.and_eq_true, beq_iff_eq,
      and_assoc]
  · intro hsource
    rw [overlaps, beq_false_of_ne hsource, Bool.false_and]

/-- A grid of four columns and four rows. -/
def sampleGrids : List Grid := [⟨.uint16, 4, 4, Vector.replicate 16 (.int 0), none⟩]

/-- All of the grid. -/
def sampleWhole : View := ⟨0, ⟨⟨0, 4⟩, ⟨0, 4⟩⟩⟩

/-- None of it, between two of its columns. -/
def sampleEmpty : View := ⟨0, ⟨⟨2, 2⟩, ⟨0, 4⟩⟩⟩

theorem share_iff_overlaps_sample :
    sampleWhole.Of sampleGrids ∧ sampleEmpty.Of sampleGrids ∧
      sampleWhole.overlaps sampleEmpty = true ∧ ¬ Share sampleGrids sampleWhole sampleEmpty := by
  have hwhole : sampleWhole.Of sampleGrids := ⟨_, rfl, rfl⟩
  have hempty : sampleEmpty.Of sampleGrids := ⟨_, rfl, rfl⟩
  refine ⟨hwhole, hempty, by decide, fun hshare => ?_⟩
  obtain ⟨-, -, hcells⟩ := (share_iff_overlaps hwhole hempty).1.mp hshare
  exact absurd hcells (by decide)

end View
end TileWorld
