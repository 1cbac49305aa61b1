import Mathlib.Tactic
import TileWorld.Random.Stream

/-! Drawn orders hold the same entries as the list they are drawn from, and do not hang on what the
entries are. -/
namespace TileWorld.Stream
variable {β : Type}

theorem swap_perm (xs : Array β) (i j : Nat) : (swap xs i j).toList.Perm xs.toList := by
  unfold swap
  split
  · rename_i a b ha hb
    obtain ⟨hi, rfl⟩ := Array.getElem?_eq_some_iff.mp ha
    obtain ⟨hj, rfl⟩ := Array.getElem?_eq_some_iff.mp hb
    have hswap : (xs.setIfInBounds i xs[j]).setIfInBounds j xs[i] = xs.swap i j := by
      simp [Array.swap_def, Array.setIfInBounds, hi, hj]
    rw [hswap]
    exact (Array.swap_perm hi hj).toList
  · exact List.Perm.refl _

theorem shuffle_perm (i : Nat) (xs : Array β) (s : Stream) :
    (shuffle i xs s).1.toList.Perm xs.toList := by
  induction i generalizing xs s with
  | zero => exact List.Perm.refl _
  | succ i ih =>
    rw [shuffle]
    -- The drawn number is never computed: any exchange keeps the entries.
    generalize below (i + 1) patience s = drawn
    exact (ih _ _).trans (swap_perm xs (i + 1) drawn.1)

theorem permute_perm (xs : List β) (s : Stream) : (permute xs s).1.Perm xs := by
  simpa [permute] using shuffle_perm (xs.length - 1) xs.toArray s

section Map
variable {γ : Type} (f : β → γ)

theorem swap_map (xs : Array β) (i j : Nat) : swap (xs.map f) i j = (swap xs i j).map f := by
  unfold swap
  rw [Array.getElem?_map, Array.getElem?_map]
  cases xs[i]? with
  | none => rfl
  | some a =>
    cases xs[j]? with
    | none => rfl
    | some b => simp only [Option.map_some, Array.map_setIfInBounds]

theorem shuffle_map (i : Nat) (xs : Array β) (s : Stream) :
    shuffle i (xs.map f) s = Prod.map (Array.map f) id (shuffle i xs s) := by
  induction i generalizing xs s with
  | zero => rfl
  | succ i ih =>
    rw [shuffle, shuffle]
    generalize below (i + 1) patience s = drawn
    simp only [swap_map, ih]

theorem permute_map (xs : List β) (s : Stream) :
    permute (xs.map f) s = Prod.map (List.map f) id (permute xs s) := by
  have hmap : (xs.map f).toArray = xs.toArray.map f := by simp
  simp only [permute, List.length_map, hmap, shuffle_map, Prod.map_fst, Prod.map_snd,
    Array.toList_map, id, Prod.map_apply]

end Map

end TileWorld.Stream
