import TileWorld.Grid.Basic

/-! Grids from nested lists of rows. -/
namespace TileWorld

/-- A value, or a list of nested ones. -/
inductive Nested where
  | value (v : Value)
  | list (items : List Nested)
deriving Inhabited

namespace Nested

mutual

/-- The extents of a nested list, outermost first, if they agree at every level. -/
def shape? : Nested → Except Fault (List Nat)
  | value _ => .ok []
  | list [] => .ok [0]
  | list (first :: rest) => do
    let s ← shape? first
    let n ← agree? s rest
    pure ((n + 1) :: s)

/-- The number of items, when all have the given extents. -/
def agree? (s : List Nat) : List Nested → Except Fault Nat
  | [] => .ok 0
  | item :: rest => do
    if (← shape? item) ≠ s then throw .ragged
    let n ← agree? s rest
    pure (n + 1)

end

mutual

def leaves : Nested → List Value
  | value v => [v]
  | list items => leavesOf items

def leavesOf : List Nested → List Value
  | [] => []
  | item :: rest => leaves item ++ leavesOf rest

end

end Nested

namespace Grid

/-- An untracked grid of nested rows, which must be two deep. -/
def ofNested? (data : Nested) (cellType : CellType) : Except Fault Grid := do
  let shape ← data.shape?
  let values ← data.leaves.mapM cellType.cast?
  match shape with
  | [height, width] =>
    let cells := values.toArray
    if h : cells.size = height * width then pure ⟨cellType, width, height, ⟨cells, h⟩, none⟩
    else throw .ragged
  | _ => throw (.notPlanar shape)

end Grid
end TileWorld
