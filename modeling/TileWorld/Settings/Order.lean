/-! Stable orders for declared entries. -/
namespace TileWorld.Order

/-- Put an entry behind a row of entries, ahead of those at its end that exceed it. The row is given
last entry first. -/
def place {β : Type} (exceeds : β → β → Bool) (x : β) : List β → List β
  | [] => [x]
  | y :: rest => if exceeds y x then y :: place exceeds x rest else x :: y :: rest

/-- Stable ascending order, by placing one entry after another. Where all keys compare this is the
one stable order. Keys that do not compare, such as non-numbers, are not covered: sorting leaves
their order open, and what comes out here is one order of many. -/
def ascending {β : Type} (exceeds : β → β → Bool) (xs : List β) : List β :=
  (xs.foldl (fun placed x => place exceeds x placed) []).reverse

/-- Stable order by name, code point by code point. -/
def byName {β : Type} (xs : List (String × β)) : List (String × β) :=
  xs.mergeSort fun a b => decide (a.1 ≤ b.1)

/-- The names that occur more than once, ascending, each once. -/
def repeated (names : List String) : List String :=
  go (names.mergeSort fun a b => decide (a ≤ b))
where
  go : List String → List String
    | a :: b :: rest =>
      let later := go (b :: rest)
      if a = b ∧ later.head? ≠ some a then a :: later else later
    | _ => []

end TileWorld.Order
