import TileWorld.Proofs.Grid.Update

/-! Views of a grid hold exactly the values of the cells that their windows contain. -/
namespace TileWorld

namespace Grid
variable {g : Grid} {w : Window} {v : Value}

theorem cell?_eq_some {x y : Int} :
    g.cell? x y = some v ↔ (0 ≤ x ∧ x < g.width ∧ 0 ≤ y ∧ y < g.height) ∧
      g.cells.toArray[y.toNat * g.width + x.toNat]? = some v := by
  unfold cell?
  constructor
  · intro h
    obtain ⟨i, hi, hv⟩ := Option.map_eq_some_iff.mp h
    have hplace := index?_eq_some.mp hi
    refine ⟨hplace.1, ?_⟩
    rw [← hplace.2, Array.getElem?_eq_getElem (by simp), ← hv]
    rfl
  · intro h
    have hsome : ∃ u, g.cell? x y = some u := exists_cell?.mpr h.1
    obtain ⟨u, hu⟩ := hsome
    obtain ⟨i, hi, -⟩ := Option.map_eq_some_iff.mp hu
    rw [hi, Option.map_some, ← h.2, ← (index?_eq_some.mp hi).2,
      Array.getElem?_eq_getElem (by simp)]
    rfl

theorem slice_of_le {i : Interval} {n : Nat} (hstart : 0 ≤ i.start) (hle : i.start ≤ i.stop)
    (hstop : i.stop ≤ n) : i.slice n = (i.start.toNat, i.stop.toNat) := by
  have hclamp (k : Int) (hk : 0 ≤ k) (hkn : k ≤ n) :
      (if k < 0 then k + n else k).toNat.min n = k.toNat := by
    rw [if_neg (by omega)]
    exact Nat.min_eq_left (by omega)
  exact Prod.ext (hclamp i.start hstart (by omega)) (hclamp i.stop (by omega) hstop)

theorem mem_block {β : Type} {values : Array β} {width : Nat} {columns rows : Nat × Nat} {b : β} :
    b ∈ (block values width columns rows).flatten ↔
      ∃ j < rows.2 - rows.1, ∃ i < columns.2 - columns.1,
        values[(rows.1 + j) * width + columns.1 + i]? = some b := by
  simp only [block, List.mem_flatten, List.mem_map, List.mem_range, exists_exists_and_eq_and,
    Array.mem_toList_iff, Array.mem_extract_iff_getElem]
  refine exists_congr fun j => and_congr_right fun _ => ?_
  constructor
  · intro h
    obtain ⟨i, hi, hb⟩ := h
    exact ⟨i, by omega, by rw [← hb]; exact Array.getElem?_eq_getElem _⟩
  · intro h
    obtain ⟨i, hi, hb⟩ := h
    obtain ⟨hlt, hb⟩ := Array.getElem?_eq_some_iff.mp hb
    exact ⟨i, by omega, hb⟩

/-- The values of a view are those of the cells of its window. -/
theorem mem_viewRows (hholds : g.Holds w) (hcolumns : w.columns.start ≤ w.columns.stop)
    (hrows : w.rows.start ≤ w.rows.stop) :
    v ∈ (g.viewRows w).flatten ↔ ∃ x y, w.contains x y = true ∧ g.cell? x y = some v := by
  obtain ⟨hx, hy, hwidth, hheight⟩ := hholds
  simp only [viewRows, viewSlice, slice_of_le hx hcolumns hwidth, slice_of_le hy hrows hheight,
    mem_block]
  constructor
  · intro h
    obtain ⟨j, hj, i, hi, hv⟩ := h
    refine ⟨w.columns.start + i, w.rows.start + j, ?_, ?_⟩
    · rw [Window.contains_iff]
      omega
    · rw [cell?_eq_some]
      refine ⟨by omega, ?_⟩
      rw [← hv, Int.toNat_add hy (by omega), Int.toNat_add hx (by omega), Int.toNat_natCast,
        Int.toNat_natCast, Nat.add_assoc]
  · intro h
    obtain ⟨x, y, hcontains, hcell⟩ := h
    have hxy := (Window.contains_iff w x y).mp hcontains
    have hv := (cell?_eq_some.mp hcell).2
    refine ⟨y.toNat - w.rows.start.toNat, by omega, x.toNat - w.columns.start.toNat, by omega, ?_⟩
    rw [← hv, Nat.add_sub_cancel' (by omega), Nat.add_assoc, Nat.add_sub_cancel' (by omega)]

end Grid
end TileWorld
