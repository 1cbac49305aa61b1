import TileWorld.Proofs.Grid.Update

/-! What a run of a rule writes, cell by cell: the values of cells and the counts of writes move
together, and what the run leaves alone keeps both. -/
namespace TileWorld

namespace Grid
variable {f : Rule} {g g' g'' : Grid} {x y : Int}

/-- A write is counted at its own cell, and at no other. -/
theorem writes?_put {i : Fin (g.height * g.width)} (h : g.index? x y = some i) (v : Value)
    (x' y' : Int) : (g.put i v).writes? x' y' =
      if x' = x ∧ y' = y then (g.writes? x' y').map fun n => min (n + 1) maxWrites
      else g.writes? x' y' := by
  have hindex : (g.put i v).index? x' y' = g.index? x' y' := rfl
  unfold writes?
  rw [hindex]
  split_ifs with hc
  · obtain ⟨rfl, rfl⟩ := hc
    rw [h]
    cases hcounts : g.writes with
    | none => simp [put, hcounts]
    | some counts =>
      simp only [put, hcounts, Option.map_some]
      exact congrArg some (Vector.getElem_set_self i.isLt)
  · cases h' : g.index? x' y' with
    | none => rfl
    | some j =>
      have hne : i.val ≠ j.val := by
        intro hij
        obtain rfl : i = j := Fin.ext hij
        obtain ⟨hx, hy⟩ := index?_inj h' h
        exact hc ⟨hx, hy⟩
      cases hcounts : g.writes with
      | none => simp [put, hcounts]
      | some counts =>
        simp only [put, hcounts, Option.map_some]
        exact congrArg some (Vector.getElem_set_ne i.isLt j.isLt hne)

/-- A new grid that counts its writes has counted none. -/
theorem new?_writes? {width height : Int} {fill v : Value} {cellType : CellType}
    (h : new? width height fill cellType true = .ok g) (hv : g.cell? x y = some v) :
    g.writes? x y = some 0 := by
  obtain ⟨-, -, u, -, rfl⟩ := new?_eq h
  obtain ⟨i, hi, -⟩ := Option.map_eq_some_iff.mp hv
  rw [writes?, hi]
  exact congrArg some (Vector.getElem_replicate i.isLt)

/-- The value and the count of a cell are the same in both grids. -/
def Kept (g g' : Grid) (x y : Int) : Prop :=
  g'.cell? x y = g.cell? x y ∧ g'.writes? x y = g.writes? x y

/-- Grids of one shape that agree in the values and the counts of the cells of a region. -/
structure SameOn (region : Int → Int → Prop) (g g' : Grid) : Prop where
  cellType : g'.cellType = g.cellType
  width : g'.width = g.width
  height : g'.height = g.height
  tracked : g'.writes.isSome = g.writes.isSome
  kept : ∀ x y, region x y → Kept g g' x y

namespace SameOn
variable {region : Int → Int → Prop}

theorem refl (region : Int → Int → Prop) (g : Grid) : SameOn region g g :=
  ⟨rfl, rfl, rfl, rfl, fun _ _ _ => ⟨rfl, rfl⟩⟩

theorem symm (h : SameOn region g g') : SameOn region g' g where
  cellType := h.cellType.symm
  width := h.width.symm
  height := h.height.symm
  tracked := h.tracked.symm
  kept x y hc := ⟨(h.kept x y hc).1.symm, (h.kept x y hc).2.symm⟩

theorem trans (h : SameOn region g g') (h' : SameOn region g' g'') : SameOn region g g'' where
  cellType := h'.cellType.trans h.cellType
  width := h'.width.trans h.width
  height := h'.height.trans h.height
  tracked := h'.tracked.trans h.tracked
  kept x y hc :=
    ⟨(h'.kept x y hc).1.trans (h.kept x y hc).1, (h'.kept x y hc).2.trans (h.kept x y hc).2⟩

theorem mono {smaller : Int → Int → Prop} (h : SameOn region g g')
    (hsub : ∀ x y, smaller x y → region x y) : SameOn smaller g g' :=
  ⟨h.cellType, h.width, h.height, h.tracked, fun x y hc => h.kept x y (hsub x y hc)⟩

theorem get? (h : SameOn region g g') (hc : region x y) : g'.get? x y = g.get? x y := by
  unfold Grid.get?
  rw [(h.kept x y hc).1, h.width, h.height]

/-- Grids that agree in every cell are one grid. -/
theorem eq (h : SameOn (fun _ _ => True) g g') : g' = g := by
  obtain ⟨htype, hwidth, hheight, htracked, hkept⟩ := h
  obtain ⟨cellType, width, height, cells, writes⟩ := g
  obtain ⟨cellType', width', height', cells', writes'⟩ := g'
  obtain rfl : cellType' = cellType := htype
  obtain rfl : width' = width := hwidth
  obtain rfl : height' = height := hheight
  have hplace (i : Nat) (hi : i < height' * width') : ∃ x y, ∀ (cells : Vector Value _)
      (writes : Option (Vector Nat _)), (⟨cellType', width', height', cells, writes⟩ : Grid).index?
        x y = some ⟨i, hi⟩ := by
    obtain ⟨x, y, hxy⟩ := exists_index? (g := ⟨cellType', width', height', cells, none⟩) ⟨i, hi⟩
    exact ⟨x, y, fun _ _ => hxy⟩
  have hcells : cells' = cells := by
    refine Vector.ext fun i hi => ?_
    obtain ⟨x, y, hxy⟩ := hplace i hi
    have hcell := (hkept x y trivial).1
    rw [Grid.cell?, Grid.cell?, hxy, hxy] at hcell
    exact Option.some.inj hcell
  have hwrites : writes' = writes := by
    match writes', writes, htracked with
    | none, none, _ => rfl
    | some counts', some counts, _ =>
      refine congrArg some (Vector.ext fun i hi => ?_)
      obtain ⟨x, y, hxy⟩ := hplace i hi
      have hcount := (hkept x y trivial).2
      rw [Grid.writes?, Grid.writes?, hxy, hxy] at hcount
      exact Option.some.inj hcount
  rw [hcells, hwrites]

/-- Storing a value keeps all other cells. -/
theorem put {i : Fin (g.height * g.width)} (h : g.index? x y = some i) (v : Value) :
    SameOn (fun a b => ¬(a = x ∧ b = y)) g (g.put i v) where
  cellType := rfl
  width := rfl
  height := rfl
  tracked := by simp [Grid.put]
  kept a b hc := by
    constructor
    · rw [cell?_put h, if_neg hc]
    · rw [writes?_put h, if_neg hc]

end SameOn

/-- Grids that hold the same values everywhere are one grid, if neither counts its writes. -/
theorem AgreeOff.eq {g g' : Grid} (h : AgreeOff (fun _ _ => False) g g') (hwrites : g.writes = none)
    (hwrites' : g'.writes = none) : g' = g := by
  have hsame : SameOn (fun _ _ => True) g g' := by
    refine ⟨h.cellType, h.width, h.height, ?_, fun x y _ => ⟨h.cell? x y id, ?_⟩⟩
    · rw [hwrites, hwrites']
      rfl
    · rw [writes?, writes?, hwrites, hwrites']
      simp
  exact hsame.eq

/-- What a rule writes to a cell, as it gives it, from what the cell holds: nothing when it hands
back what it was given. -/
def written? (g : Grid) (f : Rule) (x y : Int) : Except Fault (Option Value) := do
  match ← f x y (← g.get? x y) with
  | .keep => pure none
  | .paint v => do
    let _ ← g.cellType.cast? v
    pure (some v)

theorem SameOn.written? {region : Int → Int → Prop} (h : SameOn region g g') (hc : region x y) :
    g'.written? f x y = g.written? f x y := by
  unfold Grid.written?
  rw [h.get? hc, h.cellType]

/-- Only cells of the grid are written, with values that its type holds. -/
theorem written?_eq_some {v : Value} (h : g.written? f x y = .ok (some v)) :
    (∃ i, g.index? x y = some i) ∧ ∃ u, g.cellType.cast? v = .ok u := by
  unfold written? at h
  obtain ⟨current, hcurrent, h⟩ := bind_eq_ok.mp h
  obtain ⟨stroke, -, h⟩ := bind_eq_ok.mp h
  obtain ⟨i, hi, -⟩ := Option.map_eq_some_iff.mp (get?_eq_ok.mp hcurrent)
  cases stroke with
  | keep => cases h
  | paint w =>
    obtain ⟨u, hu, h⟩ := bind_eq_ok.mp h
    obtain rfl : w = v := Option.some.inj (Except.ok.inj h)
    exact ⟨⟨i, hi⟩, u, hu⟩

theorem decide?_eq (g : Grid) (f : Rule) (x y : Int) :
    g.decide? f x y = (do
      match ← g.written? f x y with
      | none => pure none
      | some v => do pure (some (← g.admit? x y v))) := by
  unfold decide? written? admit?
  cases hcell : g.get? x y with
  | error e => rfl
  | ok current =>
    obtain ⟨i, hi, -⟩ := Option.map_eq_some_iff.mp (get?_eq_ok.mp hcell)
    rw [ok_bind, ok_bind]
    cases f x y current with
    | error e => rfl
    | ok stroke =>
      cases stroke with
      | keep => rfl
      | paint v =>
        cases hcast : g.cellType.cast? v with
        | error e => simp [hi, hcast]
        | ok u => simp [hi, hcast]

theorem update_cons_failed {e : Fault} (h : g.written? f x y = .error e)
    (rest : List (Int × Int)) : update f ((x, y) :: rest) g = (g, some e) := by
  rw [update, decide?_eq, h, error_bind]

theorem update_cons_kept (h : g.written? f x y = .ok none) (rest : List (Int × Int)) :
    update f ((x, y) :: rest) g = update f rest g := by
  have hdecide : g.decide? f x y = .ok none := by rw [decide?_eq, h]; rfl
  rw [update, hdecide]

theorem update_cons_written {v u : Value} {i : Fin (g.height * g.width)}
    (h : g.written? f x y = .ok (some v)) (hi : g.index? x y = some i)
    (hu : g.cellType.cast? v = .ok u) (rest : List (Int × Int)) :
    update f ((x, y) :: rest) g = update f rest (g.put i u) := by
  have hadmit : g.admit? x y v = .ok (i, u) := by simp [admit?, hi, hu]
  have hdecide : g.decide? f x y = .ok (some (i, u)) := by simp [decide?_eq, h, hadmit]
  rw [update, hdecide]

/-- A run keeps all cells but its own. -/
theorem update_sameOn (f : Rule) (cells : List (Int × Int)) (g : Grid) :
    SameOn (fun x y => (x, y) ∉ cells) g (update f cells g).1 := by
  induction cells generalizing g with
  | nil => exact SameOn.refl _ g
  | cons c rest ih =>
    obtain ⟨x, y⟩ := c
    have hrest (g : Grid) := (ih g).mono fun a b (hab : (a, b) ∉ (x, y) :: rest) =>
      fun hmem => hab (List.mem_cons_of_mem _ hmem)
    rcases h : g.written? f x y with e | _ | v
    · rw [update_cons_failed h]
      exact SameOn.refl _ g
    · rw [update_cons_kept h]
      exact hrest g
    · obtain ⟨⟨i, hi⟩, u, hu⟩ := written?_eq_some h
      rw [update_cons_written h hi hu]
      have hput := (SameOn.put hi u).mono fun a b (hab : (a, b) ∉ (x, y) :: rest) => by
        rintro ⟨rfl, rfl⟩
        exact hab List.mem_cons_self
      exact hput.trans (hrest _)

/-- A run reads and writes its own cells only: from grids that agree on them it makes grids that
agree on them, and fails alike. -/
theorem update_sameOn_cells {cells : List (Int × Int)} {region : Int → Int → Prop}
    (hcells : ∀ x y, (x, y) ∈ cells → region x y) (h : SameOn region g g') :
    SameOn region (update f cells g).1 (update f cells g').1 ∧
      (update f cells g').2 = (update f cells g).2 := by
  induction cells generalizing g g' with
  | nil => exact ⟨h, rfl⟩
  | cons c rest ih =>
    obtain ⟨x, y⟩ := c
    have hrest : ∀ a b, (a, b) ∈ rest → region a b :=
      fun a b hab => hcells a b (List.mem_cons_of_mem _ hab)
    have hsame := h.written? (f := f) (hcells x y List.mem_cons_self)
    rcases hw : g.written? f x y with e | _ | v
    · rw [update_cons_failed hw, update_cons_failed (hsame.trans hw)]
      exact ⟨h, rfl⟩
    · rw [update_cons_kept hw, update_cons_kept (hsame.trans hw)]
      exact ih hrest h
    · obtain ⟨⟨i, hi⟩, u, hu⟩ := written?_eq_some hw
      obtain ⟨⟨i', hi'⟩, u', hu'⟩ := written?_eq_some (hsame.trans hw)
      obtain rfl : u' = u := by
        rw [h.cellType, hu] at hu'
        exact (Except.ok.inj hu').symm
      rw [update_cons_written hw hi hu, update_cons_written (hsame.trans hw) hi' hu']
      refine ih hrest ⟨h.cellType, h.width, h.height, ?_, fun a b hab => ?_⟩
      · simpa [put] using h.tracked
      · obtain ⟨hcell, hwrites⟩ := h.kept a b hab
        constructor
        · rw [cell?_put hi, cell?_put hi', hcell]
        · rw [writes?_put hi, writes?_put hi', hwrites]

/-- What a pass of a rule makes of a cell, given what the rule writes to it. -/
def Redrawn (f : Rule) (g g' : Grid) (x y : Int) : Prop :=
  match g.written? f x y with
  | .error _ => False
  | .ok none => Kept g g' x y
  | .ok (some v) => ∃ u, g.cellType.cast? v = .ok u ∧ g'.cell? x y = some u ∧
      g'.writes? x y = (g.writes? x y).map fun n => min (n + 1) maxWrites

/-- A run over distinct cells redraws them in order, up to the first that fails; that one and the
later ones are kept, and the run fails as it does. -/
theorem exists_update_split {cells : List (Int × Int)} (hcells : cells.Nodup) (f : Rule)
    (g : Grid) : ∃ done rest, cells = done ++ rest ∧
      (∀ x y, (x, y) ∈ done → Redrawn f g (update f cells g).1 x y) ∧
      (∀ x y, (x, y) ∉ done → Kept g (update f cells g).1 x y) ∧
      (rest = [] ∧ (update f cells g).2 = none ∨ ∃ x y later e, rest = (x, y) :: later ∧
        g.written? f x y = .error e ∧ (update f cells g).2 = some e) := by
  induction cells generalizing g with
  | nil => exact ⟨[], [], rfl, by simp, fun _ _ _ => ⟨rfl, rfl⟩, .inl ⟨rfl, rfl⟩⟩
  | cons c rest ih =>
    obtain ⟨x, y⟩ := c
    obtain ⟨hnew, hrest⟩ := List.nodup_cons.mp hcells
    rcases hw : g.written? f x y with e | _ | v
    · rw [update_cons_failed hw]
      exact ⟨[], (x, y) :: rest, rfl, by simp, fun _ _ _ => ⟨rfl, rfl⟩,
        .inr ⟨x, y, rest, e, rfl, hw, rfl⟩⟩
    · rw [update_cons_kept hw]
      obtain ⟨done, left, hsplit, hdone, hkept, hend⟩ := ih hrest g
      refine ⟨(x, y) :: done, left, by rw [hsplit, List.cons_append], ?_, ?_, hend⟩
      · intro a b hab
        rcases List.mem_cons.mp hab with hab | hab
        · obtain ⟨rfl, rfl⟩ := Prod.mk.inj hab
          unfold Redrawn
          rw [hw]
          exact (update_sameOn f rest g).kept a b hnew
        · exact hdone a b hab
      · intro a b hab
        exact hkept a b fun hmem => hab (List.mem_cons_of_mem _ hmem)
    · obtain ⟨⟨i, hi⟩, u, hu⟩ := written?_eq_some hw
      rw [update_cons_written hw hi hu]
      obtain ⟨done, left, hsplit, hdone, hkept, hend⟩ := ih hrest (g.put i u)
      have hput := SameOn.put hi u
      have hother (a b : Int) (hab : (a, b) ∈ rest) : ¬(a = x ∧ b = y) := by
        rintro ⟨rfl, rfl⟩
        exact hnew hab
      refine ⟨(x, y) :: done, left, by rw [hsplit, List.cons_append], ?_, ?_, ?_⟩
      · intro a b hab
        rcases List.mem_cons.mp hab with hab | hab
        · obtain ⟨rfl, rfl⟩ := Prod.mk.inj hab
          obtain ⟨hcell, hwrites⟩ := (update_sameOn f rest (g.put i u)).kept a b hnew
          unfold Redrawn
          rw [hw]
          refine ⟨u, hu, ?_, ?_⟩
          · rw [hcell, cell?_put hi, if_pos ⟨rfl, rfl⟩]
          · rw [hwrites, writes?_put hi, if_pos ⟨rfl, rfl⟩]
        · have hne := hother a b (hsplit ▸ List.mem_append_left left hab)
          have hredrawn := hdone a b hab
          unfold Redrawn Kept at hredrawn
          rw [hput.written? hne, (hput.kept a b hne).1, (hput.kept a b hne).2] at hredrawn
          exact hredrawn
      · intro a b hab
        obtain ⟨hfirst, hlater⟩ := not_or.mp (mt List.mem_cons.mpr hab)
        have hne : ¬(a = x ∧ b = y) := by
          rintro ⟨rfl, rfl⟩
          exact hfirst rfl
        obtain ⟨hcell, hwrites⟩ := hkept a b hlater
        obtain ⟨hcell', hwrites'⟩ := hput.kept a b hne
        exact ⟨hcell.trans hcell', hwrites.trans hwrites'⟩
      · rcases hend with hend | ⟨a, b, later, e, hleft, he, hfault⟩
        · exact .inl hend
        · have hmem : (a, b) ∈ rest := by
            rw [hsplit, hleft]
            simp
          exact .inr ⟨a, b, later, e, hleft, (hput.written? (hother a b hmem)).symm.trans he, hfault⟩

/-- Two grids redrawn alike at a cell hold the same there. -/
theorem Redrawn.kept (h : Redrawn f g g' x y) (h' : Redrawn f g g'' x y) : Kept g' g'' x y := by
  unfold Redrawn at h h'
  rcases hw : g.written? f x y with e | _ | v
  · rw [hw] at h
    exact h.elim
  · rw [hw] at h h'
    exact ⟨h'.1.trans h.1.symm, h'.2.trans h.2.symm⟩
  · rw [hw] at h h'
    obtain ⟨u, hu, hcell, hwrites⟩ := h
    obtain ⟨u', hu', hcell', hwrites'⟩ := h'
    obtain rfl : u = u' := Except.ok.inj (hu.symm.trans hu')
    exact ⟨hcell'.trans hcell.symm, hwrites'.trans hwrites.symm⟩

/-- A run over distinct cells succeeds when each cell does, as it stands at the start. -/
theorem update_fault_eq_none {cells : List (Int × Int)} (hcells : cells.Nodup) :
    (update f cells g).2 = none ↔ ∀ x y, (x, y) ∈ cells → ∃ w, g.written? f x y = .ok w := by
  obtain ⟨done, rest, hsplit, hdone, -, hend⟩ := exists_update_split hcells f g
  have hok (x y : Int) (hxy : (x, y) ∈ done) : ∃ w, g.written? f x y = .ok w := by
    have hredrawn := hdone x y hxy
    unfold Redrawn at hredrawn
    cases hw : g.written? f x y with
    | error e =>
      rw [hw] at hredrawn
      exact hredrawn.elim
    | ok w => exact ⟨w, rfl⟩
  rcases hend with ⟨rfl, hnone⟩ | ⟨a, b, later, e, rfl, he, hfault⟩
  · rw [List.append_nil] at hsplit
    exact iff_of_true hnone (hsplit ▸ hok)
  · simp only [hfault, reduceCtorEq, false_iff, not_forall]
    exact ⟨a, b, by simp [hsplit], by simp [he]⟩

/-- A run over distinct cells that succeeds redraws all of them. -/
theorem update_redrawn {cells : List (Int × Int)} (hcells : cells.Nodup)
    (h : (update f cells g).2 = none) (hxy : (x, y) ∈ cells) :
    Redrawn f g (update f cells g).1 x y := by
  obtain ⟨done, rest, hsplit, hdone, -, hend⟩ := exists_update_split hcells f g
  rcases hend with ⟨rfl, -⟩ | ⟨a, b, later, e, -, -, hfault⟩
  · rw [List.append_nil] at hsplit
    exact hdone x y (hsplit ▸ hxy)
  · cases hfault.symm.trans h

end Grid
end TileWorld
