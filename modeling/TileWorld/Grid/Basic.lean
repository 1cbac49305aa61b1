import TileWorld.Grid.CellType

/-! Grids of values of one type, addressed by column and row, with an optional count of the writes
to each cell. -/
namespace TileWorld

structure Grid where
  cellType : CellType
  width : Nat
  height : Nat
  cells : Vector Value (height * width)
  /-- How often each cell was written, up to a limit, if that is tracked. -/
  writes : Option (Vector Nat (height * width))

namespace Grid

/-- Where the counts of writes stop. -/
def maxWrites : Nat := 65535

/-- A grid filled with one value, which must suit the type even when there is no cell. -/
def new? (width height : Int) (fill : Value) (cellType : CellType) (tracked : Bool) :
    Except Fault Grid :=
  if width < 0 ∨ height < 0 then .error (.negativeSize width height) else do
    let v ← cellType.cast? fill
    pure ⟨cellType, width.toNat, height.toNat, Vector.replicate _ v,
      if tracked then some (Vector.replicate _ 0) else none⟩

/-- The place of a cell in row-major order. -/
def index? (g : Grid) (x y : Int) : Option (Fin (g.height * g.width)) :=
  if h : 0 ≤ x ∧ x < g.width ∧ 0 ≤ y ∧ y < g.height then
    some ⟨y.toNat * g.width + x.toNat, by
      calc y.toNat * g.width + x.toNat < (y.toNat + 1) * g.width := by
            rw [Nat.succ_mul]; omega
        _ ≤ g.height * g.width := Nat.mul_le_mul_right _ (by omega)⟩
  else none

/-- What a cell holds. -/
def cell? (g : Grid) (x y : Int) : Option Value := (g.index? x y).map fun i => g.cells[i]

/-- How often a cell was written. -/
def writes? (g : Grid) (x y : Int) : Option Nat := do
  let i ← g.index? x y
  let counts ← g.writes
  pure counts[i]

def get? (g : Grid) (x y : Int) : Except Fault Value :=
  match g.cell? x y with
  | some v => .ok v
  | none => .error (.outsideGrid x y g.width g.height)

/-- Store a value that the type already holds, and count the write. -/
def put (g : Grid) (i : Fin (g.height * g.width)) (v : Value) : Grid :=
  { g with
    cells := g.cells.set i v
    writes := g.writes.map fun counts => counts.set i (min (counts[i] + 1) maxWrites) }

/-- Where a value would go, and as what it would be stored. -/
def admit? (g : Grid) (x y : Int) (v : Value) :
    Except Fault (Fin (g.height * g.width) × Value) :=
  match g.index? x y with
  | none => .error (.outsideGrid x y g.width g.height)
  | some i => do pure (i, ← g.cellType.cast? v)

def insert? (g : Grid) (x y : Int) (v : Value) : Except Fault Grid := do
  let (i, v) ← g.admit? x y v
  pure (g.put i v)

/-- What a rule that sees the cell's value decides for it: nothing, or a write. -/
def decide? (g : Grid) (f : Int → Int → Value → Except Fault Stroke) (x y : Int) :
    Except Fault (Option (Fin (g.height * g.width) × Value)) := do
  match ← f x y (← g.get? x y) with
  | .keep => pure none
  | .paint v => do pure (some (← g.admit? x y v))

/-- Apply a rule to cells one after another. The first failure ends the run; what was written before
it stays written. -/
def update (f : Int → Int → Value → Except Fault Stroke) :
    List (Int × Int) → Grid → Grid × Option Fault
  | [], g => (g, none)
  | (x, y) :: rest, g => match g.decide? f x y with
    | .error e => (g, some e)
    | .ok none => update f rest g
    | .ok (some (i, v)) => update f rest (g.put i v)

/-- All of the grid. -/
def window (g : Grid) : Window := ⟨⟨0, g.width⟩, ⟨0, g.height⟩⟩

/-- Apply a rule to every cell, row by row. -/
def updateAll (f : Int → Int → Value → Except Fault Stroke) (g : Grid) : Grid × Option Fault :=
  g.update f g.window.cells

/-- Columns `a` to `b` of rows `c` to `d` of values in row-major order. -/
def block {β : Type} (values : Array β) (width : Nat) (columns rows : Nat × Nat) :
    List (List β) :=
  (List.range (rows.2 - rows.1)).map fun j =>
    (values.extract ((rows.1 + j) * width + columns.1) ((rows.1 + j) * width + columns.2)).toList

def rows (g : Grid) : List (List Value) := block g.cells.toArray g.width (0, g.width) (0, g.height)

/-- The counts of writes by rows, if they are tracked. -/
def writeRows? (g : Grid) : Option (List (List Nat)) :=
  g.writes.map fun counts => block counts.toArray g.width (0, g.width) (0, g.height)

/-- Same size and equal values, whatever the types. -/
def same (g h : Grid) : Bool :=
  g.width == h.width && g.height == h.height &&
    (List.zipWith (CellType.equals .float64) g.cells.toList h.cells.toList).all id

end Grid
end TileWorld
