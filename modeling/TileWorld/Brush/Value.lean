import TileWorld.Number.Scalar
import TileWorld.Text.Quoted

/-! What a cell can be given, and what becomes of it. -/
namespace TileWorld

inductive Value where
  | none
  | int (n : Int)
  | float (x : Float)
  | text (s : String)
deriving Repr, Inhabited

namespace Value

/-- Equality of values; an integer equals a double of the same value. -/
def same : Value → Value → Bool
  | none, none => true
  | int m, int n => m == n
  | float x, float y => x == y
  | int n, float x | float x, int n =>
    match (Scalar.truncate? x : Except Fault Int) with
    | .ok m => (Dyadic.ofFloat x).isInteger && m == n
    | .error _ => false
  | text s, text t => s == t
  | _, _ => false

def written : Value → String
  | none => "None"
  | int n => toString n
  | float x => Scalar.text x
  | text s => Quoted.text s

end Value

/-- The decision of a brush at one cell. -/
inductive Stroke where
  | keep
  | paint (value : Value)
deriving Repr, Inhabited

namespace Stroke

/-- The value of a cell after the stroke. -/
def applyTo : Stroke → Value → Value
  | keep, current => current
  | paint value, _ => value

/-- One stroke, then another. -/
def andThen : Stroke → Stroke → Stroke
  | s, keep => s
  | _, paint value => paint value

theorem applyTo_andThen (s t : Stroke) (v : Value) :
    (s.andThen t).applyTo v = t.applyTo (s.applyTo v) := by
  cases t <;> rfl

end Stroke
end TileWorld
