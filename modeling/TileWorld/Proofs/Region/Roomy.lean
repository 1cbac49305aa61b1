import TileWorld.Proofs.Number.Integers
import TileWorld.Proofs.Number.Quotient
import TileWorld.Proofs.Region.Window

/-! Contexts with room for splits. Parts of a context stay inside of it as long as its extent is a
double. A wider one is rounded, so that each split may push its ends out a little. -/
namespace TileWorld
open Double (Sizable)

namespace Interval

/-- An interval of at most 54 digits that stays far from overflow, also after a number of splits. -/
structure Roomy (splits : ℕ) (i : Interval) : Prop where
  extent : -2 ^ 54 ≤ i.extent ∧ i.extent ≤ 2 ^ 54
  start : -2 ^ 250 ≤ i.start ∧ i.start ≤ 2 ^ 250
  stop : -2 ^ 250 ≤ i.stop ∧ i.stop ≤ 2 ^ 250
  splits : (-2 ^ 53 ≤ i.extent ∧ i.extent ≤ 2 ^ 53) ∨
    (splits * 2 ^ 54 ≤ 2 ^ 250 - i.start ∧ splits * 2 ^ 54 ≤ 2 ^ 250 + i.start) ∧
      splits * 2 ^ 54 ≤ 2 ^ 250 - i.stop ∧ splits * 2 ^ 54 ≤ 2 ^ 250 + i.stop

/-- The ends of a part lie between those of the interval, up to rounding. -/
theorem Roomy.exists_part? {n : ℕ} {i : Interval} (h : i.Roomy (n + 1)) {s : Span Float}
    (hstart : Scalar.IsShare s.start) (hstop : Scalar.IsShare s.stop) :
    ∃ j, i.part? s = .ok j ∧ j.Roomy n := by
  obtain ⟨hlow, hhigh⟩ := h.extent
  obtain ⟨a, ha, haPos, haNeg⟩ := Double.exists_scale?_of_isShare hlow hhigh hstart
  obtain ⟨b, hb, hbPos, hbNeg⟩ := Double.exists_scale?_of_isShare hlow hhigh hstop
  have hi : i.extent = i.stop - i.start := rfl
  have hj : (⟨i.start + a, i.start + b⟩ : Interval).extent = i.start + b - (i.start + a) := rfl
  have hends := h.start
  have hends' := h.stop
  have hsplits := h.splits
  refine ⟨⟨i.start + a, i.start + b⟩, by rw [part?, ha, ok_bind, hb, ok_bind, pure_eq_ok],
    ⟨?_, ?_, ?_, ?_⟩⟩
  · rw [hj]
    omega
  · show _ ≤ i.start + a ∧ i.start + a ≤ _
    omega
  · show _ ≤ i.start + b ∧ i.start + b ≤ _
    omega
  · rw [hj]
    show _ ∨ (_ ≤ _ - (i.start + a) ∧ _ ≤ _ + (i.start + a)) ∧
      _ ≤ _ - (i.start + b) ∧ _ ≤ _ + (i.start + b)
    omega

/-- An interval both of whose ends have at most 53 digits. -/
def Small (i : Interval) : Prop := |i.start| < 2 ^ 53 ∧ |i.stop| < 2 ^ 53

/-- Small intervals that are doubles wide have room for any number of splits, wider ones for more
than a tree can hold. -/
theorem Small.roomy {i : Interval} (h : i.Small) {n : ℕ}
    (hn : |i.extent| ≤ 2 ^ 53 ∨ n ≤ 2 ^ 190) : i.Roomy n := by
  obtain ⟨hstart, hstop⟩ := h
  have hextent : i.extent = i.stop - i.start := rfl
  rw [abs_lt] at hstart hstop
  rw [abs_le] at hn
  refine ⟨?_, ?_, ?_, ?_⟩ <;> omega

/-- Numbers that cells of a pass can have for coordinates. -/
def Near (n : ℤ) : Prop := -2 ^ 251 ≤ n ∧ n ≤ 2 ^ 251

/-- An interval that is not empty, of numbers that cells can have. -/
structure Walked (i : Interval) : Prop where
  nonempty : i.start < i.stop
  start : -2 ^ 251 ≤ i.start
  stop : i.stop ≤ 2 ^ 251

theorem Small.walked {i : Interval} (h : i.Small) (hi : i.start < i.stop) : i.Walked := by
  obtain ⟨hstart, hstop⟩ := h
  rw [abs_lt] at hstart hstop
  refine ⟨hi, ?_, ?_⟩ <;> omega

theorem Walked.near {i : Interval} (h : i.Walked) {n : ℤ} (hn : i.contains n = true) : Near n := by
  obtain ⟨hlow, hhigh⟩ := (contains_iff i n).mp hn
  have hstart := h.start
  have hstop := h.stop
  constructor <;> omega

theorem Walked.sizable {i : Interval} (h : i.Walked) :
    Sizable i.start ∧ Sizable i.extent ∧ ∀ k : ℕ, k < i.count → Sizable k := by
  obtain ⟨hlt, hstart, hstop⟩ := h
  have hextent : i.extent = i.stop - i.start := rfl
  refine ⟨abs_le.mpr ?_, abs_le.mpr ?_, fun k hk => abs_le.mpr ?_⟩
  · omega
  · omega
  · unfold count at hk
    omega

/-- Every number near enough has a place in an interval, collapsed and reversed ones included. -/
theorem Roomy.exists_local? {n : ℕ} {i : Interval} (h : i.Roomy n) {m : ℤ} (hm : Near m) :
    ∃ x : Float, i.local? m = .ok x := by
  unfold local?
  split_ifs with hextent
  · exact ⟨0.0, rfl⟩
  · obtain ⟨hlow, hhigh⟩ := hm
    have hstart := h.start
    have hsize : |m - i.start| ≤ 2 ^ 253 := abs_le.mpr (by omega)
    obtain ⟨x, hx⟩ := Quotient.exists_nearest? (a := m - i.start) hextent (Or.inl hsize)
    exact ⟨x, by simp only [Scalar.quotient?, hx]⟩

end Interval

/-- A span whose ends are shares of the unit interval, in either order. -/
def Span.Inside (s : Span Float) : Prop := Scalar.IsShare s.start ∧ Scalar.IsShare s.stop

theorem Span.inside_full : (Span.full : Span Float).Inside := by
  constructor <;> decide

theorem Span.Inside.flip {s : Span Float} (h : s.Inside) : s.flip.Inside :=
  ⟨Double.isShare_one_sub h.2, Double.isShare_one_sub h.1⟩

/-- A pass over cells, at least one. -/
structure Window.Walked (w : Window) : Prop where
  columns : w.columns.Walked
  rows : w.rows.Walked

/-- A window whose coordinates have at most 53 digits. -/
structure Window.Small (w : Window) : Prop where
  columns : w.columns.Small
  rows : w.rows.Small

theorem Window.Small.walked {w : Window} (h : w.Small) (hw : w.isEmpty = false) : w.Walked := by
  obtain ⟨hcolumns, hrows⟩ := w.isEmpty_eq_false_iff.mp hw
  exact ⟨h.columns.walked hcolumns, h.rows.walked hrows⟩

theorem Window.Walked.isEmpty_eq_false {w : Window} (h : w.Walked) : w.isEmpty = false :=
  w.isEmpty_eq_false_iff.mpr ⟨h.columns.nonempty, h.rows.nonempty⟩

theorem Window.Small.walked_of_contains {w : Window} (h : w.Small) {x y : ℤ}
    (hxy : w.contains x y = true) : w.Walked := by
  obtain ⟨⟨hx, hx'⟩, hy, hy'⟩ := (w.contains_iff x y).mp hxy
  exact ⟨h.columns.walked (hx.trans_lt hx'), h.rows.walked (hy.trans_lt hy')⟩

namespace Context

structure Roomy (splits : ℕ) (c : Context) : Prop where
  columns : c.columns.Roomy splits
  rows : c.rows.Roomy splits

variable {n : ℕ} {c : Context}

theorem Roomy.exists_extend? (h : c.Roomy (n + 1)) {across down : Span Float}
    (hacross : across.Inside) (hdown : down.Inside) :
    ∃ sub, c.extend? across down = .ok sub ∧ sub.Roomy n ∧ sub.world = c.world := by
  obtain ⟨columns, hcolumns, hroomy⟩ := h.columns.exists_part? hacross.1 hacross.2
  obtain ⟨rows, hrows, hroomy'⟩ := h.rows.exists_part? hdown.1 hdown.2
  refine ⟨⟨⟨columns, rows⟩, c.world⟩, ?_, ⟨hroomy, hroomy'⟩, rfl⟩
  rw [extend?, hcolumns, ok_bind, hrows, ok_bind, pure_eq_ok]

theorem Roomy.exists_toward? (h : c.Roomy n) (d : Direction) {pass : Window} (hpass : pass.Walked)
    {x y : ℤ} (hxy : pass.contains x y = true) : ∃ v : Float, c.toward? d x y = .ok v := by
  obtain ⟨hx, hy⟩ := Bool.and_eq_true_iff.mp hxy
  obtain ⟨u, hu⟩ := h.columns.exists_local? (hpass.columns.near hx)
  obtain ⟨v, hv⟩ := h.rows.exists_local? (hpass.rows.near hy)
  cases d with
  | up => exact ⟨v, hv⟩
  | down => exact ⟨1.0 - v, by simp only [Window.toward?, hv, ok_bind, pure_eq_ok]⟩
  | right => exact ⟨u, hu⟩
  | left => exact ⟨1.0 - u, by simp only [Window.toward?, hu, ok_bind, pure_eq_ok]⟩

end Context
end TileWorld
