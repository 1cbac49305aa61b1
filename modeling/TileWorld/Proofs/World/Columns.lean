import TileWorld.Proofs.Number.Scaled
import TileWorld.Proofs.World.Climates

/-! Columns of climates over doubles. However its steps are rounded, the cursor is never negative and
never runs back, so that columns keep their order and no two of them share a cell. -/
namespace TileWorld
namespace Layout
open Double

theorem sum_notNegative {weights : List Float} (h : ∀ w ∈ weights, NotNegative (value w)) :
    NotNegative (value (Scalar.sum weights)) := by
  have hfold (total : Float) (htotal : NotNegative (value total)) :
      NotNegative (value (weights.foldl (· + ·) total)) := by
    induction weights generalizing total with
    | nil => exact htotal
    | cons w rest ih =>
      exact ih (fun v hv => h v (List.mem_cons_of_mem w hv)) (total + w)
        (add_float_notNegative htotal (h w List.mem_cons_self))
  exact hfold 0.0 trivial

namespace Spread
variable {s : Spread Float} {k : Nat} {cursor w : Float} {weights : List Float}
  {columns : List Interval}

/-- The last climate ends with the world, wherever the cursor is; one with others after it ends at the
cursor. -/
theorem scale?_of_mem {x : Float} {stop : Int} {c : Interval}
    (hcolumns : s.columns? k cursor weights = .ok columns) (hc : c ∈ columns)
    (hstop : (if weights.isEmpty then .ok s.width else Scalar.scale? s.width x) = .ok stop) :
    Scalar.scale? s.width x = .ok stop := by
  cases weights with
  | nil =>
    obtain rfl : columns = [] := by simpa [columns?, eq_comm] using hcolumns
    simp at hc
  | cons w rest => exact hstop

/-- A spread that moves the cursor by numbers that are not negative. -/
structure Steady (s : Spread Float) : Prop where
  width : 0 ≤ s.width
  gap : Scalar.IsShare s.gap
  total : NotNegative (value s.total)
  total_ne_zero : Scalar.same s.total 0.0 = false

namespace Steady

theorem start_notNegative (hs : s.Steady) (k : Nat) (hcursor : NotNegative (value cursor)) :
    NotNegative (value (s.start k cursor)) := by
  unfold start
  split_ifs
  · exact add_float_notNegative hcursor (isWeight_notNegative hs.gap.1)
  · exact hcursor

theorem share_notNegative (hs : s.Steady) (hw : NotNegative (value w)) :
    NotNegative (value ((1.0 - s.gap) * w / s.total)) :=
  div_float_notNegative (mul_float_notNegative (one_sub_notNegative hs.gap) hw) hs.total
    hs.total_ne_zero

theorem next_notNegative (hs : s.Steady) (k : Nat) (hcursor : NotNegative (value cursor))
    (hw : NotNegative (value w)) : NotNegative (value (s.next k cursor w)) :=
  add_float_notNegative (hs.start_notNegative k hcursor) (hs.share_notNegative hw)

theorem le_start (hs : s.Steady) (h : (value (s.start k cursor)).isFinite = true) :
    Scalar.le cursor (s.start k cursor) = true := by
  unfold start at h ⊢
  split_ifs at h ⊢ with hk
  · exact scalar_le_add (isWeight_notNegative hs.gap.1) h
  · exact scalar_le_refl h

theorem start_le_next (hs : s.Steady) (hw : NotNegative (value w))
    (h : (value (s.next k cursor w)).isFinite = true) :
    Scalar.le (s.start k cursor) (s.next k cursor w) = true :=
  scalar_le_add (hs.share_notNegative hw) h

/-- Every column starts where the cursor has come to later on. -/
theorem exists_start (hs : s.Steady) (hweights : ∀ w ∈ weights, NotNegative (value w))
    (h : s.columns? k cursor weights = .ok columns) :
    ∀ c ∈ columns, ∃ x, Scalar.le cursor x = true ∧ Scalar.scale? s.width x = .ok c.start := by
  induction weights generalizing k cursor columns with
  | nil =>
    obtain rfl : columns = [] := by simpa [columns?, eq_comm] using h
    simp
  | cons w rest ih =>
    rw [List.forall_mem_cons] at hweights
    obtain ⟨stop, hstop, first, hfirst, others, hothers, rfl⟩ := columns?_cons.mp h
    have hstart := hs.le_start (isFinite_of_scale? hfirst)
    intro c hc
    rcases List.mem_cons.mp hc with rfl | hc
    · exact ⟨s.start k cursor, hstart, hfirst⟩
    · obtain ⟨x, hx, hscale⟩ := ih hweights.2 hothers c hc
      have hstop := scale?_of_mem hothers hc hstop
      have hnext := hs.start_le_next hweights.1 (isFinite_of_scale? hstop)
      exact ⟨x, scalar_le_trans hstart (scalar_le_trans hnext hx), hscale⟩

theorem start_nonneg (hs : s.Steady) (hweights : ∀ w ∈ weights, NotNegative (value w))
    (hcursor : NotNegative (value cursor)) (h : s.columns? k cursor weights = .ok columns) :
    ∀ c ∈ columns, 0 ≤ c.start := by
  intro c hc
  obtain ⟨x, hx, hscale⟩ := hs.exists_start hweights h c hc
  exact scale?_nonneg hs.width (notNegative_of_le hcursor hx) hscale

/-- No column reaches into a later one. -/
theorem pairwise (hs : s.Steady) (hweights : ∀ w ∈ weights, NotNegative (value w))
    (hcursor : NotNegative (value cursor)) (h : s.columns? k cursor weights = .ok columns) :
    columns.Pairwise fun c c' => c.stop ≤ c'.start := by
  induction weights generalizing k cursor columns with
  | nil =>
    obtain rfl : columns = [] := by simpa [columns?, eq_comm] using h
    exact List.Pairwise.nil
  | cons w rest ih =>
    rw [List.forall_mem_cons] at hweights
    obtain ⟨stop, hstop, first, hfirst, others, hothers, rfl⟩ := columns?_cons.mp h
    have hnext := hs.next_notNegative k hcursor hweights.1
    refine List.Pairwise.cons (fun c hc => ?_) (ih hweights.2 hnext hothers)
    obtain ⟨x, hx, hscale⟩ := hs.exists_start hweights.2 hothers c hc
    exact scale?_mono hs.width hnext hx (scale?_of_mem hothers hc hstop) hscale

end Steady
end Spread

section Weights
variable {zone : String} {width : Int} {gap : Float} {weights : List Float} {columns : List Interval}

theorem spread?_steady (hwidth : 0 ≤ width) (hgap : Scalar.IsShare gap)
    (hweights : ∀ w ∈ weights, NotNegative (value w))
    (h : spread? zone width gap weights = .ok columns) :
    Spread.Steady ⟨width, gap, Scalar.sum weights, weights.length / 2⟩ where
  width := hwidth
  gap := hgap
  total := sum_notNegative hweights
  total_ne_zero := by
    obtain ⟨htotal, -⟩ := spread?_eq_ok.mp h
    rw [Scalar.same, htotal, Bool.false_and]

theorem spread?_start_nonneg (hwidth : 0 ≤ width) (hgap : Scalar.IsShare gap)
    (hweights : ∀ w ∈ weights, NotNegative (value w))
    (h : spread? zone width gap weights = .ok columns) : ∀ c ∈ columns, 0 ≤ c.start := by
  have hcursor : NotNegative (value 0.0) := trivial
  have hs := spread?_steady hwidth hgap hweights h
  exact hs.start_nonneg hweights hcursor (spread?_eq_ok.mp h).2

theorem spread?_pairwise (hwidth : 0 ≤ width) (hgap : Scalar.IsShare gap)
    (hweights : ∀ w ∈ weights, NotNegative (value w))
    (h : spread? zone width gap weights = .ok columns) :
    columns.Pairwise fun c c' => c.stop ≤ c'.start := by
  have hcursor : NotNegative (value 0.0) := trivial
  have hs := spread?_steady hwidth hgap hweights h
  exact hs.pairwise hweights hcursor (spread?_eq_ok.mp h).2

end Weights
end Layout

namespace Generator
variable {s : Settings Float} {g : Generator Float} {z : Zone Float}

theorem widthWeight_notNegative (hg : g.InBounds) (k : Nat) :
    Double.NotNegative (Double.value (widthWeight g.climates k)) := by
  unfold widthWeight
  cases hc : g.climates[k]? with
  | none => trivial
  | some c =>
    exact Double.isWeight_notNegative (hg.climates c (by simpa using Array.mem_of_getElem? hc)).1

theorem InBounds.isShare_spawnSize (hg : g.InBounds) : Scalar.IsShare g.spawnSize :=
  ⟨hg.spawnSize.1, Double.scalar_le_of_lt hg.spawnSize.2⟩

/-- The columns of the climates of a zone were spread by weights. -/
theorem build_spread? (hg : g.InBounds) (h : (build s).outcome = .ok g) (hz : z ∈ g.zones)
    (hne : z.climates ≠ []) :
    ∃ weights, (∀ w ∈ weights, Double.NotNegative (Double.value w)) ∧
      Layout.spread? z.name g.world.width g.spawnSize weights = .ok (z.climates.map Prod.snd) := by
  obtain ⟨k, hk⟩ := List.getElem?_of_mem hz
  obtain ⟨order, columns, -, -, hcolumns, hzip⟩ := build_climates h hk
  have horder : order ≠ [] := by
    rintro rfl
    exact hne (by simpa using hzip)
  have hempty : order.isEmpty = false := by simpa using horder
  rw [columns?, hempty, if_neg Bool.false_ne_true] at hcolumns
  have hlength := Layout.Spread.columns?_length (Layout.spread?_eq_ok.mp hcolumns).2
  have hranges : z.climates.map Prod.snd = columns := by
    rw [hzip, List.map_snd_zip (by simp_all)]
  refine ⟨_, fun w hw => ?_, hranges ▸ hcolumns⟩
  obtain ⟨⟨j, _⟩, -, rfl⟩ := List.mem_map.mp hw
  exact widthWeight_notNegative hg j

/-- No climate starts left of the world. -/
theorem build_start_nonneg (hg : g.InBounds) (h : (build s).outcome = .ok g) (hz : z ∈ g.zones)
    {e : Nat × Interval} (he : e ∈ z.climates) : 0 ≤ e.2.start := by
  obtain ⟨weights, hweights, hspread⟩ := build_spread? hg h hz (List.ne_nil_of_mem he)
  exact Layout.spread?_start_nonneg hg.width.le hg.isShare_spawnSize hweights hspread e.2
    (List.mem_map_of_mem he)

/-- No climate reaches into the columns of a later one. -/
theorem build_columns_pairwise (hg : g.InBounds) (h : (build s).outcome = .ok g)
    (hz : z ∈ g.zones) : z.climates.Pairwise fun e e' => e.2.stop ≤ e'.2.start := by
  by_cases hne : z.climates = []
  · rw [hne]
    exact List.Pairwise.nil
  · obtain ⟨weights, hweights, hspread⟩ := build_spread? hg h hz hne
    exact List.pairwise_map.mp
      (Layout.spread?_pairwise hg.width.le hg.isShare_spawnSize hweights hspread)

end Generator
end TileWorld
