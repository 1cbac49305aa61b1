import TileWorld.Proofs.Number.Exact
import TileWorld.Proofs.Region.Axis
import TileWorld.Sampler.Bake

/-! Places in intervals and parts of contexts in exact arithmetic, where none of them fails. -/
namespace TileWorld

namespace Interval

/-- The place of a number in an interval. All numbers have place zero in a collapsed one. -/
def place (i : Interval) (n : ℤ) : ℚ := (n - i.start : ℤ) / i.extent

theorem local?_rat (i : Interval) (n : ℤ) : i.local? n = .ok (i.place n) := by
  unfold local? place
  split_ifs with hextent
  · rw [hextent, Int.cast_zero, div_zero, Scalar.zero_rat]
  · rfl

theorem place_mono {i : Interval} (hi : 0 ≤ i.extent) {m n : ℤ} (h : m ≤ n) :
    i.place m ≤ i.place n :=
  div_le_div_of_nonneg_right (by exact_mod_cast Int.sub_le_sub_right h i.start)
    (by exact_mod_cast hi)

@[simp] theorem part?_full_rat (i : Interval) : i.part? (Span.full : Span ℚ) = .ok i := by
  have hwhole (n : ℤ) : Scalar.truncate? (n : ℚ) = .ok n := by
    show Except.ok ((n : ℚ).num.tdiv (n : ℚ).den) = _
    rw [Rat.num_intCast, Rat.den_intCast, Nat.cast_one, Int.tdiv_one]
  have hstart : Scalar.scale? i.extent (0.0 : ℚ) = .ok 0 := by
    rw [Scalar.zero_rat]
    show Scalar.truncate? ((i.extent : ℚ) * 0) = _
    rw [mul_zero, ← Int.cast_zero, hwhole]
  have hstop : Scalar.scale? i.extent (1.0 : ℚ) = .ok i.extent := by
    rw [Scalar.one_rat]
    show Scalar.truncate? ((i.extent : ℚ) * 1) = _
    rw [mul_one, hwhole]
  rw [part?, Span.full, hstart, hstop]
  simp [extent]

theorem part?_rat {i : Interval} {s : Span ℚ} (hi : 0 ≤ i.extent) (hstart : 0 ≤ s.start)
    (hstop : 0 ≤ s.stop) :
    i.part? s = .ok ⟨i.start + ⌊i.extent * s.start⌋, i.start + ⌊i.extent * s.stop⌋⟩ := by
  rw [part?, Scalar.scale?_rat hi hstart, ok_bind, Scalar.scale?_rat hi hstop, ok_bind,
    pure_eq_ok]

/-- A number of an interval, or its end. -/
def Holds (i : Interval) (n : ℤ) : Prop := i.start ≤ n ∧ n ≤ i.stop

variable {i : Interval} {n : ℤ}

theorem Holds.of_contains (h : i.contains n = true) : i.Holds n := by
  obtain ⟨hlow, hhigh⟩ := (contains_iff i n).mp h
  exact ⟨hlow, hhigh.le⟩

theorem Holds.extent_nonneg (h : i.Holds n) : 0 ≤ i.extent := Int.sub_nonneg.mpr (h.1.trans h.2)

/-- An extent counts the way to a number in shares, also when there is none. -/
theorem Holds.extent_mul_place (h : i.Holds n) : i.extent * i.place n = (n - i.start : ℤ) := by
  obtain ⟨hlow, hhigh⟩ := h
  by_cases hextent : i.extent = 0
  · have hstart : n - i.start = 0 := by
      unfold extent at hextent
      omega
    rw [hextent, hstart, Int.cast_zero, zero_mul]
  · exact mul_div_cancel₀ _ (Int.cast_ne_zero.mpr hextent)

theorem Holds.place_mem (h : i.Holds n) : 0 ≤ i.place n ∧ i.place n ≤ 1 := by
  have hextent : (0 : ℚ) ≤ i.extent := by exact_mod_cast h.extent_nonneg
  have hway : (0 : ℚ) ≤ (n - i.start : ℤ) := by exact_mod_cast Int.sub_nonneg.mpr h.1
  have hleft : ((n - i.start : ℤ) : ℚ) ≤ i.extent := by
    exact_mod_cast Int.sub_le_sub_right h.2 i.start
  exact ⟨div_nonneg hway hextent, div_le_one_of_le₀ hleft hextent⟩

/-- A number whose place lies in a span stays in the part of the interval that the span names. -/
theorem Holds.part {j : Interval} {s : Span ℚ} (h : i.Holds n) (hs : 0 ≤ s.start)
    (hstart : s.start ≤ i.place n) (hstop : i.place n ≤ s.stop) (hj : i.part? s = .ok j) :
    j.Holds n := by
  rw [part?_rat h.extent_nonneg hs (hs.trans (hstart.trans hstop))] at hj
  obtain rfl := Except.ok.inj hj
  have hextent : (0 : ℚ) ≤ i.extent := by exact_mod_cast h.extent_nonneg
  have hway := h.extent_mul_place
  have hlow : i.extent * s.start ≤ (n - i.start : ℤ) :=
    hway ▸ mul_le_mul_of_nonneg_left hstart hextent
  have hhigh : ((n - i.start : ℤ) : ℚ) ≤ i.extent * s.stop :=
    hway ▸ mul_le_mul_of_nonneg_left hstop hextent
  have hfloor : ⌊i.extent * s.start⌋ ≤ n - i.start := by exact_mod_cast (Int.floor_le _).trans hlow
  have hfloor' : n - i.start ≤ ⌊i.extent * s.stop⌋ := Int.le_floor.mpr hhigh
  constructor
  · show i.start + ⌊i.extent * s.start⌋ ≤ n
    omega
  · show n ≤ i.start + ⌊i.extent * s.stop⌋
    omega

end Interval

/-- The way of a cell in a direction, from 0 to 1 in the window. -/
def Window.way (w : Window) (d : Direction) (x y : ℤ) : ℚ :=
  if d.ascends then (w.axis d).place (d.along x y) else 1 - (w.axis d).place (d.along x y)

theorem Window.toward?_rat (w : Window) (d : Direction) (x y : ℤ) :
    w.toward? d x y = .ok (w.way d x y) := by
  rw [toward?_eq_axis, Interval.local?_rat, way, Scalar.one_rat]
  split_ifs
  · rfl
  · rfl

/-- A cell of a window, or of the row or column next to its last. -/
def Window.Holds (w : Window) (x y : ℤ) : Prop := w.columns.Holds x ∧ w.rows.Holds y

theorem Window.Holds.of_contains {w : Window} {x y : ℤ} (h : w.contains x y = true) :
    w.Holds x y := by
  obtain ⟨hx, hy⟩ := Bool.and_eq_true_iff.mp h
  exact ⟨.of_contains hx, .of_contains hy⟩

theorem Window.holds_iff_axis (w : Window) (d : Direction) (x y : ℤ) : w.Holds x y ↔
    (w.axis d).Holds (d.along x y) ∧ (w.front d).Holds (d.across x y) := by
  cases d
  · exact and_comm
  · exact and_comm
  · exact Iff.rfl
  · exact Iff.rfl

theorem Window.Holds.way_mem {w : Window} {x y : ℤ} (h : w.Holds x y) (d : Direction) :
    0 ≤ w.way d x y ∧ w.way d x y ≤ 1 := by
  obtain ⟨hlow, hhigh⟩ := ((w.holds_iff_axis d x y).mp h).1.place_mem
  unfold way
  split_ifs
  · exact ⟨hlow, hhigh⟩
  · exact ⟨sub_nonneg.mpr hhigh, sub_le_self _ hlow⟩

theorem Context.extend?_eq_ok {α : Type} [Scalar α] {c sub : Context} {across down : Span α} :
    c.extend? across down = .ok sub ↔ c.columns.part? across = .ok sub.columns ∧
      c.rows.part? down = .ok sub.rows ∧ sub.world = c.world := by
  simp only [extend?, bind_eq_ok, pure_eq_ok, Except.ok.injEq]
  constructor
  · rintro ⟨columns, hcolumns, rows, hrows, rfl⟩
    exact ⟨hcolumns, hrows, rfl⟩
  · rintro ⟨hcolumns, hrows, hworld⟩
    exact ⟨_, hcolumns, _, hrows, by rw [← hworld]⟩

theorem Sampler.exists_splitContext?_rat (ctx : Context) (d : Direction) (range : Span ℚ) :
    ∃ sub, splitContext? ctx d range = .ok sub := by
  cases d <;> exact ⟨_, rfl⟩

/-- What the span of a split names of an axis, counted along its coordinates. -/
def Span.seenFrom (range : Span ℚ) (d : Direction) : Span ℚ :=
  if d.ascends then range.flip else range

/-- A split shortens a context in its direction, and leaves it as it is across. -/
theorem Sampler.splitContext?_rat {ctx sub : Context} {d : Direction} {range : Span ℚ} :
    splitContext? ctx d range = .ok sub ↔
      (ctx.axis d).part? (range.seenFrom d) = .ok (sub.axis d) ∧ sub.front d = ctx.front d ∧
        sub.world = ctx.world := by
  have hfull (i j : Interval) : i.part? (Span.full : Span ℚ) = .ok j ↔ j = i := by
    rw [Interval.part?_full_rat, Except.ok.injEq, eq_comm]
  cases d
  · exact Context.extend?_eq_ok.trans (by rw [hfull]; exact and_left_comm)
  · exact Context.extend?_eq_ok.trans (by rw [hfull]; exact and_left_comm)
  · exact Context.extend?_eq_ok.trans (by rw [hfull]; exact Iff.rfl)
  · exact Context.extend?_eq_ok.trans (by rw [hfull]; exact Iff.rfl)

/-- Where a split takes its inner sampler, a cell stays in the part of the context. -/
theorem Window.Holds.splitContext? {ctx sub : Context} {d : Direction} {range : Span ℚ} {x y : ℤ}
    (h : ctx.Holds x y) (hstart : 0 ≤ range.start) (hstop : range.stop ≤ 1)
    (hin : range.contains (1.0 - ctx.way d x y) = true)
    (hsub : Sampler.splitContext? ctx d range = .ok sub) : sub.Holds x y := by
  obtain ⟨haxis, hfront, -⟩ := Sampler.splitContext?_rat.mp hsub
  obtain ⟨halong, hacross⟩ := (ctx.holds_iff_axis d x y).mp h
  rw [Span.contains, Bool.and_eq_true, Scalar.le_rat, Scalar.lt_rat, Scalar.one_rat] at hin
  refine (sub.holds_iff_axis d x y).mpr ⟨?_, hfront ▸ hacross⟩
  unfold way at hin
  unfold Span.seenFrom Span.flip at haxis
  split_ifs at hin haxis
  · refine halong.part ?_ ?_ ?_ haxis
    · exact Scalar.one_rat ▸ sub_nonneg.mpr hstop
    · exact Scalar.one_rat ▸ sub_le_comm.mp hin.2.le
    · exact Scalar.one_rat ▸ le_sub_comm.mp hin.1
  · rw [sub_sub_cancel] at hin
    exact halong.part hstart hin.1 hin.2.le haxis

end TileWorld
