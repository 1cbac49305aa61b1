import TileWorld.Fault

/-! Names resolved to positions. -/
namespace TileWorld.Directory

/-- Position of the last declaration of a name. -/
def position? (names : List String) (name : String) : Option Nat :=
  go names 0 none
where
  go : List String → Nat → Option Nat → Option Nat
    | [], _, found => found
    | n :: rest, k, found => go rest (k + 1) (if n = name then some k else found)

/-- Position of a name that must be declared. -/
def resolve? (kind : String) (names : List String) (name : String) : Except Fault Nat :=
  match position? names name with
  | some k => .ok k
  | none => .error (.settings (.unknownReference kind name))

/-- The distinct names in order of first appearance, each with its last position. -/
def entries (names : List String) : List (String × Nat) :=
  names.eraseDups.filterMap fun name => (position? names name).map (name, ·)

end TileWorld.Directory
