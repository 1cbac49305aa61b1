import TileWorld.Grid.Basic

/-! Views: windows of a grid that are read and written through it, by the grid's own coordinates. -/
namespace TileWorld

/-- A view as held by its owner: the number of the grid it looks at, and its window. -/
structure View where
  source : Nat
  window : Window
deriving DecidableEq, Repr

/-- Views of one grid overlap when their windows do; views of different grids never do. -/
def View.overlaps (v w : View) : Bool := v.source == w.source && v.window.overlaps w.window

namespace Grid

/-- A window is a view of a grid when it starts inside and stops inside. -/
def view? (g : Grid) (w : Window) : Except Fault Window :=
  if w.columns.start < 0 ∨ w.rows.start < 0 ∨ g.width < w.columns.stop ∨ g.height < w.rows.stop then
    .error (.viewTooLarge w g.width g.height)
  else .ok w

def getIn? (g : Grid) (view : Window) (x y : Int) : Except Fault Value :=
  if view.contains x y then g.get? x y else .error (.outsideView x y view)

def insertIn? (g : Grid) (view : Window) (x y : Int) (v : Value) : Except Fault Grid :=
  if view.contains x y then g.insert? x y v else .error (.outsideView x y view)

/-- Apply a rule to every cell of a view, row by row. -/
def updateIn (f : Int → Int → Value → Except Fault Stroke) (view : Window) (g : Grid) :
    Grid × Option Fault :=
  g.update f view.cells

/-- Columns and rows of the grid that a view cuts out. -/
def viewSlice (g : Grid) (view : Window) : (Nat × Nat) × (Nat × Nat) :=
  (view.columns.slice g.width, view.rows.slice g.height)

/-- Number of rows and columns that a view cuts out. -/
def viewShape (g : Grid) (view : Window) : Nat × Nat :=
  let (columns, rows) := g.viewSlice view
  (rows.2 - rows.1, columns.2 - columns.1)

/-- The values that a view cuts out, by rows. -/
def viewRows (g : Grid) (view : Window) : List (List Value) :=
  let (columns, rows) := g.viewSlice view
  block g.cells.toArray g.width columns rows

end Grid
end TileWorld
