import TileWorld.Region.Direction
import TileWorld.Region.Span

/-! Positions relative to a window, and windows that belong to a world. -/
namespace TileWorld
variable {α : Type} [Scalar α]

/-- Where `n` lies in an interval: 0 at its start, 1 at its stop. All of a collapsed interval lies
at its start. -/
def Interval.local? (i : Interval) (n : Int) : Except Fault α :=
  if i.extent = 0 then .ok 0.0 else Scalar.quotient? (n - i.start) i.extent

/-- The fractional part of an interval that a span names. -/
def Interval.part? (i : Interval) (s : Span α) : Except Fault Interval := do
  let a ← Scalar.scale? i.extent s.start
  let b ← Scalar.scale? i.extent s.stop
  pure ⟨i.start + a, i.start + b⟩

/-- How far a cell lies in a direction: it grows from 0 to 1 moving that way. -/
def Window.toward? (w : Window) (d : Direction) (x y : Int) : Except Fault α :=
  match d with
  | .up => w.rows.local? y
  | .down => do pure (1.0 - (← w.rows.local? y))
  | .right => w.columns.local? x
  | .left => do pure (1.0 - (← w.columns.local? x))

/-- Size and seed of a world. -/
structure World where
  width : Int
  height : Int
  seed : Int
deriving DecidableEq, Repr, Inhabited

/-- A window that belongs to a world. -/
structure Context extends Window where
  world : World
deriving DecidableEq, Repr, Inhabited

namespace Context

/-- The whole of a world. -/
def ofWorld (world : World) : Context := ⟨⟨⟨0, world.width⟩, ⟨0, world.height⟩⟩, world⟩

def alike (c d : Context) : Bool := c.toWindow.alike d.toWindow && c.world == d.world

/-- The fractional sub-rectangle that two spans of this one name. -/
def extend? (c : Context) (across down : Span α) : Except Fault Context := do
  let columns ← c.columns.part? across
  let rows ← c.rows.part? down
  pure ⟨⟨columns, rows⟩, c.world⟩

end Context
end TileWorld
