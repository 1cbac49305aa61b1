import TileWorld.Grid.View
import TileWorld.Region.Context

/-! Sweeps: contexts whose cells are visited row by row, over a grid of the same world. -/
namespace TileWorld
namespace Context
variable {α : Type} [Scalar α]

/-- The full width of the world by the rows of a zone. -/
def ofZone (world : World) (rows : Interval) : Context := ⟨⟨⟨0, world.width⟩, rows⟩, world⟩

/-- Largest number of rows that is counted. -/
def maxRows : Nat := 0x7fffffffffffffff

/-- Given columns by the upper rows of a zone, down to a share of its height. -/
def ofClimate? (world : World) (rows columns : Interval) (depth : α) : Except Fault Context := do
  if maxRows < rows.count then throw .overflow
  let height ← Scalar.scale? rows.count depth
  pure ⟨⟨columns, ⟨rows.start, rows.start + height⟩⟩, world⟩

/-- Apply a rule to the cells of a sweep, which must be a view of the grid. -/
def update? (sweep : Context) (f : Int → Int → Value → Except Fault Stroke) (g : Grid) :
    Except Fault Grid := do
  let view ← g.view? sweep.toWindow
  match g.updateIn f view with
  | (g, none) => pure g
  | (_, some e) => throw e

end Context
end TileWorld
