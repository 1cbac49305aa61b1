/-! Half-open integer intervals, and windows: the rectangles that two of them span. -/
namespace TileWorld

/-- The integers from `start` up to, but not including, `stop`; none when `stop ≤ start`. -/
structure Interval where
  start : Int
  stop : Int
deriving DecidableEq, Repr, Inhabited

namespace Interval

/-- Signed length; negative when the ends are reversed. -/
def extent (i : Interval) : Int := i.stop - i.start

/-- Number of integers held. -/
def count (i : Interval) : Nat := i.extent.toNat

def contains (i : Interval) (n : Int) : Bool := decide (i.start ≤ n) && decide (n < i.stop)

/-- The integers held, ascending. -/
def toList (i : Interval) : List Int := (List.range i.count).map fun (k : Nat) => i.start + k

/-- Intervals are alike when they hold the same integers. -/
def alike (i j : Interval) : Bool := (i.count == 0 && j.count == 0) || i == j

def shift (i : Interval) (d : Int) : Interval := ⟨i.start + d, i.stop + d⟩

/-- The positions of a sequence of length `n` that the interval cuts out, as first and end
position. A negative end counts from the far end of the sequence. -/
def slice (i : Interval) (n : Nat) : Nat × Nat :=
  let clamp (k : Int) : Nat := (if k < 0 then k + n else k).toNat.min n
  (clamp i.start, clamp i.stop)

def text (i : Interval) : String := s!"range({i.start}, {i.stop})"

theorem contains_iff (i : Interval) (n : Int) :
    i.contains n = true ↔ i.start ≤ n ∧ n < i.stop := by
  simp [contains]

theorem mem_toList (i : Interval) (n : Int) : n ∈ i.toList ↔ i.contains n = true := by
  simp only [toList, List.mem_map, List.mem_range, contains_iff, count, extent]
  constructor
  · rintro ⟨k, hk, rfl⟩
    omega
  · rintro ⟨h₁, h₂⟩
    exact ⟨(n - i.start).toNat, by omega, by omega⟩

end Interval

/-- A rectangle of cells. -/
structure Window where
  columns : Interval
  rows : Interval
deriving DecidableEq, Repr, Inhabited

namespace Window

def width (w : Window) : Int := w.columns.extent

def height (w : Window) : Int := w.rows.extent

def isEmpty (w : Window) : Bool := decide (w.width ≤ 0) || decide (w.height ≤ 0)

def contains (w : Window) (x y : Int) : Bool := w.columns.contains x && w.rows.contains y

/-- The cells, row by row. -/
def cells (w : Window) : List (Int × Int) :=
  w.rows.toList.flatMap fun y => w.columns.toList.map fun x => (x, y)

def cellCount (w : Window) : Nat := w.columns.count * w.rows.count

def alike (w v : Window) : Bool := w.columns.alike v.columns && w.rows.alike v.rows

def shift (w : Window) (dx dy : Int) : Window := ⟨w.columns.shift dx, w.rows.shift dy⟩

/-- Two windows meet when each starts before the other stops, on both axes. -/
def overlaps (w v : Window) : Bool :=
  decide (w.columns.start < v.columns.stop) && decide (v.columns.start < w.columns.stop) &&
  decide (w.rows.start < v.rows.stop) && decide (v.rows.start < w.rows.stop)

def text (w : Window) : String := w.columns.text ++ "x" ++ w.rows.text

theorem mem_cells (w : Window) (x y : Int) : (x, y) ∈ w.cells ↔ w.contains x y = true := by
  simp only [cells, List.mem_flatMap, List.mem_map, Prod.mk.injEq, contains, Bool.and_eq_true,
    ← Interval.mem_toList]
  constructor
  · rintro ⟨b, hb, a, ha, rfl, rfl⟩
    exact ⟨ha, hb⟩
  · rintro ⟨hx, hy⟩
    exact ⟨y, hy, x, hx, rfl, rfl⟩

end Window
end TileWorld
