import TileWorld.Grid.Sweep
import TileWorld.Proofs.Outcome
import TileWorld.Proofs.Region.Window

/-! Runs of a rule over cells of a grid: every cell is decided from what it held itself, all others
keep their values, and a run succeeds exactly when each of its cells does. -/
namespace TileWorld

/-- A rule for cells, given their places and what they hold. -/
abbrev Rule := Int → Int → Value → Except Fault Stroke

namespace Grid

theorem index?_eq_some {g : Grid} {x y : Int} {i : Fin (g.height * g.width)} :
    g.index? x y = some i ↔ (0 ≤ x ∧ x < g.width ∧ 0 ≤ y ∧ y < g.height) ∧
      i.val = y.toNat * g.width + x.toNat := by
  unfold index?
  split_ifs with h
  · simp only [Option.some.injEq, Fin.ext_iff, h, and_self, true_and]
    exact eq_comm
  · simp [h]

theorem index?_inj {g : Grid} {x y x' y' : Int} {i : Fin (g.height * g.width)}
    (h : g.index? x y = some i) (h' : g.index? x' y' = some i) : x = x' ∧ y = y' := by
  obtain ⟨⟨hx, hxw, hy, hyh⟩, hi⟩ := index?_eq_some.mp h
  obtain ⟨⟨hx', hxw', hy', hyh'⟩, hi'⟩ := index?_eq_some.mp h'
  have hrow (a b : Nat) (ha : a < g.width) : (b * g.width + a) / g.width = b := by
    rw [Nat.mul_comm, Nat.mul_add_div (by omega), Nat.div_eq_of_lt ha, Nat.add_zero]
  have hy : y.toNat = y'.toNat := by
    rw [← hrow x.toNat y.toNat (by omega), ← hi, hi', hrow _ _ (by omega)]
  rw [hi, hy] at hi'
  omega

/-- Every place is that of a cell. -/
theorem exists_index? {g : Grid} (i : Fin (g.height * g.width)) : ∃ x y, g.index? x y = some i := by
  have hi : i.val < g.width * g.height := i.isLt.trans_eq (Nat.mul_comm _ _)
  have hcolumn : i.val % g.width < g.width :=
    Nat.mod_lt i.val (Nat.pos_of_mul_pos_left (i.val.zero_le.trans_lt i.isLt))
  have hrow : i.val / g.width < g.height := Nat.div_lt_of_lt_mul hi
  have hplace := Nat.div_add_mod' i.val g.width
  generalize i.val % g.width = x at hcolumn hplace
  generalize i.val / g.width = y at hrow hplace
  exact ⟨x, y, index?_eq_some.mpr ⟨by omega, hplace.symm⟩⟩

theorem exists_cell? {g : Grid} {x y : Int} :
    (∃ v, g.cell? x y = some v) ↔ 0 ≤ x ∧ x < g.width ∧ 0 ≤ y ∧ y < g.height := by
  unfold cell? index?
  split_ifs with h
  · simp [h]
  · simp [h]

theorem cell?_eq_none {g : Grid} {x y : Int} :
    g.cell? x y = none ↔ ¬(0 ≤ x ∧ x < g.width ∧ 0 ≤ y ∧ y < g.height) := by
  rw [← exists_cell?, ← Option.isSome_iff_exists, Option.not_isSome_iff_eq_none]

/-- A stored value is read back at its own cell, and no other cell changes. -/
theorem cell?_put {g : Grid} {x y : Int} {i : Fin (g.height * g.width)}
    (h : g.index? x y = some i) (v : Value) (x' y' : Int) :
    (g.put i v).cell? x' y' = if x' = x ∧ y' = y then some v else g.cell? x' y' := by
  have hindex : (g.put i v).index? x' y' = g.index? x' y' := rfl
  unfold cell?
  rw [hindex]
  split_ifs with hc
  · obtain ⟨rfl, rfl⟩ := hc
    rw [h]
    exact congrArg some (Vector.getElem_set_self _)
  · cases h' : g.index? x' y' with
    | none => rfl
    | some j =>
      have hne : i.val ≠ j.val := by
        intro hij
        obtain rfl : i = j := Fin.ext hij
        obtain ⟨hx, hy⟩ := index?_inj h' h
        exact hc ⟨hx, hy⟩
      exact congrArg some (Vector.getElem_set_ne i.isLt j.isLt hne)

theorem get?_eq_ok {g : Grid} {x y : Int} {v : Value} :
    g.get? x y = .ok v ↔ g.cell? x y = some v := by
  unfold get?
  cases g.cell? x y with
  | none => simp
  | some w => simp

/-- A new grid holds the fill, as the type stores it, in a number of cells. -/
theorem new?_eq {width height : Int} {fill : Value} {cellType : CellType} {tracked : Bool}
    {g : Grid} (h : new? width height fill cellType tracked = .ok g) :
    0 ≤ width ∧ 0 ≤ height ∧ ∃ v, cellType.cast? fill = .ok v ∧
      g = ⟨cellType, width.toNat, height.toNat, Vector.replicate _ v,
        if tracked then some (Vector.replicate _ 0) else none⟩ := by
  unfold new? at h
  by_cases hsize : width < 0 ∨ height < 0
  · simp [hsize] at h
  · rw [if_neg hsize] at h
    obtain ⟨v, hv, h⟩ := bind_eq_ok.mp h
    exact ⟨by omega, by omega, v, hv, (Except.ok.inj h).symm⟩

theorem new?_ok {width height : Int} {fill : Value} {cellType : CellType} {tracked : Bool}
    {g : Grid} (h : new? width height fill cellType tracked = .ok g) :
    g.cellType = cellType ∧ (g.width : Int) = width ∧ (g.height : Int) = height := by
  obtain ⟨hwidth, hheight, v, -, rfl⟩ := new?_eq h
  exact ⟨rfl, Int.toNat_of_nonneg hwidth, Int.toNat_of_nonneg hheight⟩

theorem new?_writes {width height : Int} {fill : Value} {cellType : CellType} {g : Grid}
    (h : new? width height fill cellType false = .ok g) : g.writes = none := by
  obtain ⟨-, -, v, -, rfl⟩ := new?_eq h
  rfl

/-- A new grid holds the fill in every cell. -/
theorem new?_cell? {width height : Int} {fill : Value} {cellType : CellType} {tracked : Bool}
    {g : Grid} (h : new? width height fill cellType tracked = .ok g) {x y : Int} {v : Value}
    (hv : g.cell? x y = some v) : cellType.cast? fill = .ok v := by
  obtain ⟨-, -, u, hu, rfl⟩ := new?_eq h
  obtain ⟨i, -, hi⟩ := Option.map_eq_some_iff.mp hv
  rw [hu, ← hi]
  exact congrArg Except.ok (Vector.getElem_replicate i.isLt).symm

/-- Grids of one type and size that hold the same values except at cells of a region. -/
structure AgreeOff (region : Int → Int → Prop) (g g' : Grid) : Prop where
  cellType : g'.cellType = g.cellType
  width : g'.width = g.width
  height : g'.height = g.height
  cell? : ∀ x y, ¬ region x y → g'.cell? x y = g.cell? x y

namespace AgreeOff
variable {region : Int → Int → Prop} {g g' g'' : Grid}

theorem refl (region : Int → Int → Prop) (g : Grid) : AgreeOff region g g :=
  ⟨rfl, rfl, rfl, fun _ _ _ => rfl⟩

theorem trans (h : AgreeOff region g g') (h' : AgreeOff region g' g'') :
    AgreeOff region g g'' where
  cellType := h'.cellType.trans h.cellType
  width := h'.width.trans h.width
  height := h'.height.trans h.height
  cell? x y hc := (h'.cell? x y hc).trans (h.cell? x y hc)

theorem mono {wider : Int → Int → Prop} (h : AgreeOff region g g')
    (hsub : ∀ x y, region x y → wider x y) : AgreeOff wider g g' :=
  ⟨h.cellType, h.width, h.height, fun x y hc => h.cell? x y (mt (hsub x y) hc)⟩

end AgreeOff

/-- What a cell holds after a rule was applied to it. -/
def redraw? (g : Grid) (f : Rule) (x y : Int) : Except Fault Value := do
  let v ← g.get? x y
  match ← f x y v with
  | .keep => pure v
  | .paint w => g.cellType.cast? w

theorem AgreeOff.redraw? {region : Int → Int → Prop} {g g' : Grid} (h : AgreeOff region g g')
    {f : Rule} {x y : Int} (hc : ¬ region x y) : g'.redraw? f x y = g.redraw? f x y := by
  unfold Grid.redraw? get?
  rw [h.cell? x y hc, h.cellType, h.width, h.height]

theorem update_cons_error {f : Rule} {g : Grid} {x y : Int} {e : Fault}
    (h : g.redraw? f x y = .error e) (rest : List (Int × Int)) :
    update f ((x, y) :: rest) g = (g, some e) := by
  have hdecide : g.decide? f x y = .error e := by
    unfold redraw? at h
    cases hget : g.get? x y with
    | error e' =>
      obtain rfl : e' = e := by simpa [hget] using h
      simp [decide?, hget]
    | ok current =>
      obtain ⟨i, hi, -⟩ := Option.map_eq_some_iff.mp (get?_eq_ok.mp hget)
      rw [hget, ok_bind] at h
      cases hs : f x y current with
      | error e' =>
        obtain rfl : e' = e := by simpa [hs] using h
        simp [decide?, hget, hs]
      | ok stroke =>
        rw [hs, ok_bind] at h
        cases stroke with
        | keep => simp at h
        | paint w =>
          have hcast : g.cellType.cast? w = .error e := h
          simp [decide?, admit?, hget, hs, hi, hcast]
  rw [update, hdecide]

/-- A run goes on from a grid in which only the first cell was redrawn. -/
theorem update_cons_ok {f : Rule} {g : Grid} {x y : Int} {v : Value}
    (h : g.redraw? f x y = .ok v) (rest : List (Int × Int)) :
    ∃ g', update f ((x, y) :: rest) g = update f rest g' ∧
      AgreeOff (fun a b => a = x ∧ b = y) g g' ∧ g'.cell? x y = some v := by
  unfold redraw? at h
  obtain ⟨current, hcurrent, h⟩ := bind_eq_ok.mp h
  obtain ⟨stroke, hstroke, h⟩ := bind_eq_ok.mp h
  have hcell := get?_eq_ok.mp hcurrent
  obtain ⟨i, hi, -⟩ := Option.map_eq_some_iff.mp hcell
  cases stroke with
  | keep =>
    obtain rfl : current = v := by simpa using h
    refine ⟨g, ?_, AgreeOff.refl _ g, hcell⟩
    have hdecide : g.decide? f x y = .ok none := by simp [decide?, hcurrent, hstroke]
    rw [update, hdecide]
  | paint w =>
    have hcast : g.cellType.cast? w = .ok v := h
    refine ⟨g.put i v, ?_, ⟨rfl, rfl, rfl, fun a b hc => ?_⟩, ?_⟩
    · have hdecide : g.decide? f x y = .ok (some (i, v)) := by
        simp [decide?, admit?, hcurrent, hstroke, hi, hcast]
      rw [update, hdecide]
    · rw [cell?_put hi, if_neg hc]
    · rw [cell?_put hi, if_pos ⟨rfl, rfl⟩]

theorem update_agreeOff (f : Rule) (cells : List (Int × Int)) (g : Grid) :
    AgreeOff (fun x y => (x, y) ∈ cells) g (update f cells g).1 := by
  induction cells generalizing g with
  | nil => exact AgreeOff.refl _ g
  | cons c rest ih =>
    obtain ⟨x, y⟩ := c
    cases h : g.redraw? f x y with
    | error e =>
      rw [update_cons_error h]
      exact AgreeOff.refl _ g
    | ok v =>
      obtain ⟨g', hrun, hfirst, -⟩ := update_cons_ok h rest
      rw [hrun]
      have hfirst : AgreeOff (fun a b => (a, b) ∈ (x, y) :: rest) g g' :=
        hfirst.mono fun a b hab => by simp [hab]
      exact hfirst.trans ((ih g').mono fun a b hab => List.mem_cons_of_mem _ hab)

theorem update_writes {f : Rule} {cells : List (Int × Int)} {g : Grid} (h : g.writes = none) :
    (update f cells g).1.writes = none := by
  induction cells generalizing g with
  | nil => exact h
  | cons c rest ih =>
    obtain ⟨x, y⟩ := c
    rw [update]
    cases g.decide? f x y with
    | error e => exact h
    | ok write =>
      cases write with
      | none => exact ih h
      | some place =>
        refine ih ?_
        show Option.map _ g.writes = none
        rw [h, Option.map_none]

/-- A run over distinct cells succeeds exactly when every cell can be redrawn from what it held at
the start, and then every cell holds that. -/
theorem update_eq_none {f : Rule} {cells : List (Int × Int)} (hcells : cells.Nodup) (g : Grid) :
    (update f cells g).2 = none ↔ ∀ x y, (x, y) ∈ cells →
      ∃ v, g.redraw? f x y = .ok v ∧ (update f cells g).1.cell? x y = some v := by
  induction cells generalizing g with
  | nil => simp [update]
  | cons c rest ih =>
    obtain ⟨x, y⟩ := c
    obtain ⟨hnew, hrest⟩ := List.nodup_cons.mp hcells
    cases h : g.redraw? f x y with
    | error e =>
      rw [update_cons_error h]
      constructor
      · simp
      · intro hall
        obtain ⟨v, hv, -⟩ := hall x y List.mem_cons_self
        simp [h] at hv
    | ok v =>
      obtain ⟨g', hrun, hfirst, hv⟩ := update_cons_ok h rest
      have hkeep : (update f rest g').1.cell? x y = some v :=
        ((update_agreeOff f rest g').cell? x y hnew).trans hv
      have hothers (a b : Int) (hab : (a, b) ∈ rest) : g'.redraw? f a b = g.redraw? f a b := by
        refine hfirst.redraw? ?_
        rintro ⟨rfl, rfl⟩
        exact hnew hab
      rw [hrun, ih hrest]
      constructor
      · intro hall a b hab
        rcases List.mem_cons.mp hab with hab | hab
        · obtain ⟨rfl, rfl⟩ := Prod.mk.inj hab
          exact ⟨v, h, hkeep⟩
        · obtain ⟨w, hw, hcell⟩ := hall a b hab
          exact ⟨w, (hothers a b hab).symm.trans hw, hcell⟩
      · intro hall a b hab
        obtain ⟨w, hw, hcell⟩ := hall a b (List.mem_cons_of_mem _ hab)
        exact ⟨w, (hothers a b hab).trans hw, hcell⟩

/-- A run over distinct cells fails as one of them does, redrawn from what it held at the start. -/
theorem exists_redraw?_of_update {f : Rule} {cells : List (Int × Int)} {g : Grid} {e : Fault}
    (hcells : cells.Nodup) (h : (update f cells g).2 = some e) :
    ∃ x y, (x, y) ∈ cells ∧ g.redraw? f x y = .error e := by
  induction cells generalizing g with
  | nil => simp [update] at h
  | cons c rest ih =>
    obtain ⟨x, y⟩ := c
    obtain ⟨hnew, hrest⟩ := List.nodup_cons.mp hcells
    cases hfirst : g.redraw? f x y with
    | error e' =>
      rw [update_cons_error hfirst] at h
      obtain rfl : e' = e := Option.some.inj h
      exact ⟨x, y, List.mem_cons_self, hfirst⟩
    | ok v =>
      obtain ⟨g', hrun, hagree, -⟩ := update_cons_ok hfirst rest
      rw [hrun] at h
      obtain ⟨a, b, hab, he⟩ := ih hrest h
      have hother : g'.redraw? f a b = g.redraw? f a b := by
        refine hagree.redraw? ?_
        rintro ⟨rfl, rfl⟩
        exact hnew hab
      exact ⟨a, b, List.mem_cons_of_mem _ hab, hother.symm.trans he⟩

/-- Rules that decide alike for some cells make the same run over them. -/
theorem update_congr {f f' : Rule} {cells : List (Int × Int)}
    (h : ∀ x y, (x, y) ∈ cells → ∀ v, f' x y v = f x y v) (g : Grid) :
    update f' cells g = update f cells g := by
  induction cells generalizing g with
  | nil => rfl
  | cons c rest ih =>
    obtain ⟨x, y⟩ := c
    have hdecide : g.decide? f' x y = g.decide? f x y := by
      unfold decide?
      exact bind_congr fun v => by rw [h x y List.mem_cons_self]
    have hrest := ih fun a b hab => h a b (List.mem_cons_of_mem _ hab)
    simp only [update, hdecide, hrest]

/-- A window whose ends lie inside a grid. -/
def Holds (g : Grid) (w : Window) : Prop :=
  0 ≤ w.columns.start ∧ 0 ≤ w.rows.start ∧ w.columns.stop ≤ g.width ∧ w.rows.stop ≤ g.height

theorem view?_eq_ok {g : Grid} {w v : Window} : g.view? w = .ok v ↔ g.Holds w ∧ w = v := by
  unfold view? Holds
  split_ifs with h
  · simp only [false_iff]
    omega
  · simp only [Except.ok.injEq]
    constructor
    · intro hv
      exact ⟨by omega, hv⟩
    · exact And.right

theorem window_contains (g : Grid) (x y : Int) :
    g.window.contains x y = true ↔ 0 ≤ x ∧ x < g.width ∧ 0 ≤ y ∧ y < g.height := by
  rw [Window.contains_iff]
  simp only [window, and_assoc]

/-- The cells of a view are cells of the grid. -/
theorem Holds.window_contains {g : Grid} {view : Window} {x y : Int} (h : g.Holds view)
    (hc : view.contains x y = true) : g.window.contains x y = true := by
  obtain ⟨hx, hy, hwidth, hheight⟩ := h
  rw [Window.contains_iff] at hc
  rw [Grid.window_contains]
  omega

end Grid

namespace Context
variable {sweep : Context} {f : Rule} {g g' : Grid}

/-- A sweep that succeeds lies inside the grid, and redraws exactly its own cells. -/
theorem update?_ok (h : sweep.update? f g = .ok g') :
    g.Holds sweep.toWindow ∧ g.AgreeOff (fun x y => sweep.contains x y = true) g' ∧
      ∀ x y, sweep.contains x y = true →
        ∃ v, g.redraw? f x y = .ok v ∧ g'.cell? x y = some v := by
  unfold update? at h
  obtain ⟨view, hview, h⟩ := bind_eq_ok.mp h
  obtain ⟨hholds, rfl⟩ := Grid.view?_eq_ok.mp hview
  generalize hrun : g.updateIn f sweep.toWindow = run at h
  obtain ⟨g₁, _ | e⟩ := run
  · obtain rfl : g₁ = g' := by simpa using h
    have hnone := congrArg Prod.snd hrun
    have hgrid := congrArg Prod.fst hrun
    simp only [Grid.updateIn] at hnone hgrid
    have hcells := (Grid.update_eq_none sweep.nodup_cells g).mp hnone
    have hagree := Grid.update_agreeOff f sweep.cells g
    rw [hgrid] at hcells hagree
    simp only [Window.mem_cells] at hcells hagree
    exact ⟨hholds, hagree, hcells⟩
  · simp at h

theorem update?_writes (h : sweep.update? f g = .ok g') (hwrites : g.writes = none) :
    g'.writes = none := by
  unfold update? at h
  obtain ⟨view, -, h⟩ := bind_eq_ok.mp h
  have hrun := @Grid.update_writes f view.cells g hwrites
  rw [← Grid.updateIn] at hrun
  generalize g.updateIn f view = run at h hrun
  obtain ⟨g₁, _ | e⟩ := run
  · obtain rfl : g₁ = g' := Except.ok.inj h
    exact hrun
  · cases h

/-- A sweep over a view of the grid fails as one of its cells does. -/
theorem update?_error {e : Fault} (hholds : g.Holds sweep.toWindow)
    (h : sweep.update? f g = .error e) :
    ∃ x y, sweep.contains x y = true ∧ g.redraw? f x y = .error e := by
  unfold update? at h
  rw [Grid.view?_eq_ok.mpr ⟨hholds, rfl⟩, ok_bind] at h
  generalize hrun : g.updateIn f sweep.toWindow = run at h
  obtain ⟨g₁, _ | e'⟩ := run
  · simp at h
  · obtain rfl : e' = e := by simpa using h
    have hfault : (Grid.update f sweep.cells g).2 = some e' := congrArg Prod.snd hrun
    obtain ⟨x, y, hxy, he⟩ := Grid.exists_redraw?_of_update sweep.nodup_cells hfault
    exact ⟨x, y, (Window.mem_cells _ x y).mp hxy, he⟩

theorem update?_congr {f' : Rule} (h : ∀ x y, sweep.contains x y = true → ∀ v, f' x y v = f x y v)
    (g : Grid) : sweep.update? f' g = sweep.update? f g := by
  unfold update?
  cases hview : g.view? sweep.toWindow with
  | error e => rfl
  | ok view =>
    obtain ⟨-, rfl⟩ := Grid.view?_eq_ok.mp hview
    have hrun : g.updateIn f' sweep.toWindow = g.updateIn f sweep.toWindow :=
      Grid.update_congr (fun x y hxy => h x y ((Window.mem_cells _ x y).mp hxy)) g
    rw [ok_bind, ok_bind, hrun]

theorem exists_update? (hholds : g.Holds sweep.toWindow)
    (h : ∀ x y, sweep.contains x y = true → ∃ v, g.redraw? f x y = .ok v) :
    ∃ g', sweep.update? f g = .ok g' := by
  cases hrun : sweep.update? f g with
  | ok g' => exact ⟨g', rfl⟩
  | error e =>
    obtain ⟨x, y, hxy, he⟩ := update?_error hholds hrun
    obtain ⟨v, hv⟩ := h x y hxy
    simp [he] at hv

theorem ofClimate?_eq_ok {α : Type} [Scalar α] {world : World} {rows columns : Interval}
    {depth : α} {area : Context} :
    ofClimate? world rows columns depth = .ok area ↔ rows.count ≤ maxRows ∧
      ∃ height, Scalar.scale? rows.count depth = .ok height ∧
        area = ⟨⟨columns, ⟨rows.start, rows.start + height⟩⟩, world⟩ := by
  unfold ofClimate?
  split_ifs with hbig
  · simp [Nat.not_le.mpr hbig]
  · simp only [bind_eq_ok, pure_eq_ok, Except.ok.injEq, Nat.le_of_not_lt hbig, true_and]
    exact exists_congr fun height => and_congr_right fun _ => eq_comm

end Context
end TileWorld
