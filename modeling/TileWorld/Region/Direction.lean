import TileWorld.Fault

/-! The four directions a sampler can run in. -/
namespace TileWorld

inductive Direction where
  | up
  | down
  | left
  | right
deriving DecidableEq, Repr

namespace Direction

def isVertical : Direction → Bool
  | .up | .down => true
  | .left | .right => false

def name : Direction → String
  | .up => "up"
  | .down => "down"
  | .left => "left"
  | .right => "right"

def all : List Direction := [.up, .down, .left, .right]

def ofName? (s : String) : Except Fault Direction :=
  match all.find? (·.name == s) with
  | some d => .ok d
  | none => .error .unknownWord

end Direction
end TileWorld
