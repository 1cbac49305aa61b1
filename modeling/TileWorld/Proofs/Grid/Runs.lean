import TileWorld.Grid.View
import TileWorld.Proofs.Grid.Writes

/-! Runs of edits of one grid, whole or through its views, in which edits may fail: every cell holds
the last value written to it, and its count is the number of its writes. -/
namespace TileWorld

/-- A value given for a cell. -/
structure Write where
  x : Int
  y : Int
  value : Value

namespace Write

/-- The values written to one cell, in order. -/
def history (log : List Write) (x y : Int) : List Value :=
  log.filterMap fun w => if x = w.x ∧ y = w.y then some w.value else none

theorem history_append (log log' : List Write) (x y : Int) :
    history (log ++ log') x y = history log x y ++ history log' x y := List.filterMap_append

theorem history_singleton (w : Write) (x y : Int) :
    history [w] x y = if x = w.x ∧ y = w.y then [w.value] else [] := by
  unfold history
  split_ifs with h
  · simp [h]
  · simp [h]

end Write

/-- An edit of a grid. A rule may change from edit to edit; it meets each cell once in a pass, so
that what it decides there may also stem from cells met before. -/
inductive Edit where
  | insert (x y : Int) (v : Value)
  | update (f : Rule)
  | insertIn (view : Window) (x y : Int) (v : Value)
  | updateIn (view : Window) (f : Rule)

/-- The view that an edit is made through. -/
def Edit.view? : Edit → Option Window
  | .insert .. | .update _ => none
  | .insertIn view .. | .updateIn view _ => some view

namespace Grid
variable {f : Rule} {g : Grid} {x y : Int} {fill : Value} {log : List Write}

/-- The writes of a pass over distinct cells, which ends at the first cell that fails. -/
def writesOver (f : Rule) (g : Grid) : List (Int × Int) → List Write
  | [] => []
  | (x, y) :: rest => match g.written? f x y with
    | .error _ => []
    | .ok none => writesOver f g rest
    | .ok (some v) => ⟨x, y, v⟩ :: writesOver f g rest

/-- The grid after an edit, and the fault if the edit failed. -/
def edit (g : Grid) : Edit → Grid × Option Fault
  | .insert x y v => match g.insert? x y v with
    | .error e => (g, some e)
    | .ok g' => (g', none)
  | .update f => g.updateAll f
  | .insertIn view x y v => match g.view? view >>= fun w => g.insertIn? w x y v with
    | .error e => (g, some e)
    | .ok g' => (g', none)
  | .updateIn view f => match g.view? view with
    | .error e => (g, some e)
    | .ok w => g.updateIn f w

/-- The writes that an edit succeeds with. A value is inserted at a cell of the grid, and of the view,
if the grid's type holds it. -/
def writesOf (g : Grid) : Edit → List Write
  | .insert x y v =>
    if g.window.contains x y && (g.cellType.cast? v).isOk then [⟨x, y, v⟩] else []
  | .update f => writesOver f g g.window.cells
  | .insertIn view x y v =>
    if (g.view? view).isOk && view.contains x y && (g.cellType.cast? v).isOk then [⟨x, y, v⟩]
    else []
  | .updateIn view f => if (g.view? view).isOk then writesOver f g view.cells else []

/-- The grid after edits one after another, each made whether or not those before it failed. -/
def editAll (g : Grid) (edits : List Edit) : Grid := edits.foldl (fun g e => (g.edit e).1) g

/-- The writes of edits one after another. -/
def writesOfAll : Grid → List Edit → List Write
  | _, [] => []
  | g, e :: rest => g.writesOf e ++ writesOfAll (g.edit e).1 rest

theorem writesOver_congr {region : Int → Int → Prop} {g' : Grid} (h : SameOn region g g')
    {cells : List (Int × Int)} (hcells : ∀ x y, (x, y) ∈ cells → region x y) :
    writesOver f g' cells = writesOver f g cells := by
  induction cells with
  | nil => rfl
  | cons c rest ih =>
    obtain ⟨x, y⟩ := c
    have hfirst := h.written? (f := f) (hcells x y List.mem_cons_self)
    have hrest := ih fun a b hab => hcells a b (List.mem_cons_of_mem _ hab)
    simp only [writesOver, hfirst, hrest]

/-- A grid whose cells hold the last values of a log, or else the fill, and count the entries. -/
structure Recorded (fill : Value) (log : List Write) (g : Grid) : Prop where
  entry : ∀ x y v, g.cell? x y = some v →
    g.cellType.cast? ((Write.history log x y).getLastD fill) = .ok v ∧
      g.writes? x y = some (min maxWrites (Write.history log x y).length)

namespace Recorded

theorem of_new? {width height : Int} {cellType : CellType}
    (h : new? width height fill cellType true = .ok g) : Recorded fill [] g where
  entry x y v hv := by
    constructor
    · rw [(new?_ok h).1]
      exact new?_cell? h hv
    · exact new?_writes? h hv

/-- A value stored at one cell is the last entry there, and no entry elsewhere. -/
theorem put (h : Recorded fill log g) {i : Fin (g.height * g.width)} {v u : Value}
    (hi : g.index? x y = some i) (hu : g.cellType.cast? v = .ok u) :
    Recorded fill (log ++ [⟨x, y, v⟩]) (g.put i u) where
  entry a b w hw := by
    rw [cell?_put hi] at hw
    rw [writes?_put hi, Write.history_append, Write.history_singleton]
    show g.cellType.cast? _ = _ ∧ _
    by_cases hc : a = x ∧ b = y
    · rw [if_pos hc] at hw ⊢
      obtain rfl : u = w := Option.some.inj hw
      obtain ⟨current, hcurrent⟩ := exists_cell?.mpr (index?_eq_some.mp hi).1
      rw [if_pos hc, hc.1, hc.2, (h.entry x y current hcurrent).2, Option.map_some,
        List.getLastD_concat, List.length_append, List.length_singleton]
      exact ⟨hu, congrArg some (by omega)⟩
    · rw [if_neg hc] at hw ⊢
      rw [if_neg hc, List.append_nil]
      exact h.entry a b w hw

/-- A pass over distinct cells is recorded by its writes. -/
theorem update (h : Recorded fill log g) {cells : List (Int × Int)} (hcells : cells.Nodup) :
    Recorded fill (log ++ writesOver f g cells) (Grid.update f cells g).1 := by
  induction cells generalizing g log with
  | nil => simpa [writesOver, Grid.update] using h
  | cons c rest ih =>
    obtain ⟨x, y⟩ := c
    obtain ⟨hnew, hrest⟩ := List.nodup_cons.mp hcells
    rcases hw : g.written? f x y with e | _ | v
    · rw [update_cons_failed hw]
      simpa [writesOver, hw] using h
    · rw [update_cons_kept hw]
      simpa [writesOver, hw] using ih h hrest
    · obtain ⟨⟨i, hi⟩, u, hu⟩ := written?_eq_some hw
      rw [update_cons_written hw hi hu]
      have hlater : writesOver f (g.put i u) rest = writesOver f g rest := by
        refine writesOver_congr (SameOn.put hi u) fun a b hab => ?_
        rintro ⟨rfl, rfl⟩
        exact hnew hab
      have hrun := ih (h.put hi hu) hrest
      rw [hlater, List.append_assoc, List.singleton_append] at hrun
      simpa [writesOver, hw] using hrun

end Recorded

/-- An insertion stores a value that the type holds at a cell of the grid, or else fails. -/
theorem edit_insert (g : Grid) (x y : Int) (v : Value) :
    (∃ i u, g.index? x y = some i ∧ g.cellType.cast? v = .ok u ∧
        g.edit (.insert x y v) = (g.put i u, none) ∧ g.writesOf (.insert x y v) = [⟨x, y, v⟩]) ∨
      ∃ e, g.edit (.insert x y v) = (g, some e) ∧ g.writesOf (.insert x y v) = [] := by
  cases hi : g.index? x y with
  | none =>
    have houtside : g.cell? x y = none := by rw [cell?, hi, Option.map_none]
    rw [cell?_eq_none, ← window_contains, Bool.not_eq_true] at houtside
    exact .inr ⟨.outsideGrid x y g.width g.height, by simp [edit, insert?, admit?, hi],
      by simp [writesOf, houtside]⟩
  | some i =>
    have hinside := (window_contains g x y).mpr (index?_eq_some.mp hi).1
    cases hu : g.cellType.cast? v with
    | error e =>
      exact .inr ⟨e, by simp [edit, insert?, admit?, hi, hu],
        by simp [writesOf, hu, Except.isOk, Except.toBool]⟩
    | ok u =>
      exact .inl ⟨i, u, rfl, rfl, by simp [edit, insert?, admit?, hi, hu],
        by simp [writesOf, hinside, hu, Except.isOk, Except.toBool]⟩

/-- A view inserts at its own cells as the grid does, and fails at others. -/
theorem edit_insertIn (g : Grid) (view : Window) (x y : Int) (v : Value) :
    (view.contains x y = true ∧ g.edit (.insertIn view x y v) = g.edit (.insert x y v) ∧
        g.writesOf (.insertIn view x y v) = g.writesOf (.insert x y v)) ∨
      ∃ e, g.edit (.insertIn view x y v) = (g, some e) ∧
        g.writesOf (.insertIn view x y v) = [] := by
  cases hview : g.view? view with
  | error e =>
    exact .inr ⟨e, by simp [edit, hview], by simp [writesOf, hview, Except.isOk, Except.toBool]⟩
  | ok w =>
    obtain ⟨hholds, rfl⟩ := view?_eq_ok.mp hview
    by_cases hc : view.contains x y = true
    · exact .inl ⟨hc, by simp [edit, hview, insertIn?, hc],
        by simp [writesOf, hview, hc, hholds.window_contains hc, Except.isOk, Except.toBool]⟩
    · exact .inr ⟨.outsideView x y view, by simp [edit, hview, insertIn?, hc], by simp [writesOf, hc]⟩

/-- A view is swept as its window of the grid, or is none. -/
theorem edit_updateIn (g : Grid) (view : Window) (f : Rule) :
    (g.edit (.updateIn view f) = update f view.cells g ∧
        g.writesOf (.updateIn view f) = writesOver f g view.cells) ∨
      ∃ e, g.edit (.updateIn view f) = (g, some e) ∧ g.writesOf (.updateIn view f) = [] := by
  cases hview : g.view? view with
  | error e =>
    exact .inr ⟨e, by simp [edit, hview], by simp [writesOf, hview, Except.isOk, Except.toBool]⟩
  | ok w =>
    obtain ⟨-, rfl⟩ := view?_eq_ok.mp hview
    exact .inl ⟨by simp [edit, hview, updateIn],
      by simp [writesOf, hview, Except.isOk, Except.toBool]⟩

namespace Recorded

theorem insert (h : Recorded fill log g) (x y : Int) (v : Value) :
    Recorded fill (log ++ g.writesOf (.insert x y v)) (g.edit (.insert x y v)).1 := by
  rcases edit_insert g x y v with ⟨i, u, hi, hu, hrun, hwrites⟩ | ⟨e, hrun, hwrites⟩
  · rw [hrun, hwrites]
    exact h.put hi hu
  · rw [hrun, hwrites, List.append_nil]
    exact h

/-- Every edit, failed or not, is recorded by its writes. -/
theorem edit (h : Recorded fill log g) (e : Edit) :
    Recorded fill (log ++ g.writesOf e) (g.edit e).1 := by
  cases e with
  | insert x y v => exact h.insert x y v
  | update f => exact h.update g.window.nodup_cells
  | insertIn view x y v =>
    rcases edit_insertIn g view x y v with ⟨-, hrun, hwrites⟩ | ⟨e, hrun, hwrites⟩
    · rw [hrun, hwrites]
      exact h.insert x y v
    · rw [hrun, hwrites, List.append_nil]
      exact h
  | updateIn view f =>
    rcases edit_updateIn g view f with ⟨hrun, hwrites⟩ | ⟨e, hrun, hwrites⟩
    · rw [hrun, hwrites]
      exact h.update view.nodup_cells
    · rw [hrun, hwrites, List.append_nil]
      exact h

theorem editAll (h : Recorded fill log g) (edits : List Edit) :
    Recorded fill (log ++ g.writesOfAll edits) (g.editAll edits) := by
  induction edits generalizing g log with
  | nil => simpa [writesOfAll, Grid.editAll] using h
  | cons e rest ih =>
    have hrun := ih (h.edit e)
    rw [List.append_assoc] at hrun
    exact hrun

end Recorded

/-- What a pass of a rule over the cells of a window makes of a grid: it goes along the rows and
meets each cell once; the cells before the first that fails are redrawn, and all others are kept. -/
structure Swept (f : Rule) (w : Window) (g : Grid) (r : Grid × Option Fault) : Prop where
  alongRows : w.cells.Pairwise fun c d => c.2 < d.2 ∨ c.2 = d.2 ∧ c.1 < d.1
  mem_cells : ∀ x y, (x, y) ∈ w.cells ↔ w.contains x y = true
  exists_split : ∃ done rest, w.cells = done ++ rest ∧
    (∀ x y, (x, y) ∈ done → Redrawn f g r.1 x y) ∧
    (∀ x y, (x, y) ∉ done → Kept g r.1 x y) ∧
    (rest = [] ∧ r.2 = none ∨ ∃ x y later e, rest = (x, y) :: later ∧
      g.written? f x y = .error e ∧ r.2 = some e)

theorem swept_update (f : Rule) (w : Window) (g : Grid) : Swept f w g (update f w.cells g) :=
  ⟨w.pairwise_cells, w.mem_cells, exists_update_split w.nodup_cells f g⟩

theorem edit_insert_sameOn (g : Grid) (x y : Int) (v : Value) :
    SameOn (fun a b => ¬(a = x ∧ b = y)) g (g.edit (.insert x y v)).1 := by
  rcases edit_insert g x y v with ⟨i, u, hi, -, hput, -⟩ | ⟨e, hfail, -⟩
  · rw [hput]
    exact SameOn.put hi u
  · rw [hfail]
    exact SameOn.refl _ g

/-- An edit keeps the type and the size of a grid, and an edit through a view keeps all cells outside
of it. -/
theorem edit_sameOn (g : Grid) (e : Edit) :
    SameOn (fun x y => ∃ view, e.view? = some view ∧ view.contains x y = false) g (g.edit e).1 := by
  cases e with
  | insert x y v =>
    refine (edit_insert_sameOn g x y v).mono ?_
    rintro a b ⟨view, hview, -⟩
    cases hview
  | update f =>
    refine (update_sameOn f g.window.cells g).mono ?_
    rintro a b ⟨view, hview, -⟩
    cases hview
  | insertIn w x y v =>
    rcases edit_insertIn g w x y v with ⟨hinside, hrun, -⟩ | ⟨e, hrun, -⟩
    · rw [hrun]
      refine (edit_insert_sameOn g x y v).mono ?_
      rintro a b ⟨view, hview, hc⟩ ⟨rfl, rfl⟩
      obtain rfl : w = view := Option.some.inj hview
      exact Bool.noConfusion (hc.symm.trans hinside)
    · rw [hrun]
      exact SameOn.refl _ g
  | updateIn w f =>
    rcases edit_updateIn g w f with ⟨hrun, -⟩ | ⟨e, hrun, -⟩
    · rw [hrun]
      refine (update_sameOn f w.cells g).mono ?_
      rintro a b ⟨view, hview, hc⟩ hmem
      obtain rfl : w = view := Option.some.inj hview
      exact Bool.noConfusion (hc.symm.trans ((Window.mem_cells w a b).mp hmem))
    · rw [hrun]
      exact SameOn.refl _ g

theorem editAll_shape (g : Grid) (edits : List Edit) :
    SameOn (fun _ _ => False) g (g.editAll edits) := by
  induction edits generalizing g with
  | nil => exact SameOn.refl _ g
  | cons e rest ih => exact ((edit_sameOn g e).mono fun _ _ h => h.elim).trans (ih (g.edit e).1)

/-- The law of runs: after any edits of a new grid, every cell holds the last value written to it,
or else the fill, and counts the writes; a pass makes of its window what its rule says, up to the
first cell that fails; and an edit through a view stays inside it. -/
theorem editAll_law {width height : Int} {cellType : CellType} {start : Grid}
    (h : new? width height fill cellType true = .ok start) (edits : List Edit) :
    let g := start.editAll edits
    let log := start.writesOfAll edits
    (∀ x y, 0 ≤ x ∧ x < width ∧ 0 ≤ y ∧ y < height →
      ∃ v, cellType.cast? ((Write.history log x y).getLastD fill) = .ok v ∧
        g.cell? x y = some v ∧
        g.writes? x y = some (min maxWrites (Write.history log x y).length)) ∧
    (∀ f, Swept f g.window g (g.edit (.update f))) ∧
    (∀ f view, g.view? view = .ok view → Swept f view g (g.edit (.updateIn view f))) ∧
    ∀ e view, e.view? = some view → ∀ x y, view.contains x y = false → Kept g (g.edit e).1 x y := by
  intro g log
  have hrecorded : Recorded fill log g := (Recorded.of_new? h).editAll edits
  obtain ⟨htype, hwidth, hheight⟩ := new?_ok h
  have hshape := editAll_shape start edits
  refine ⟨fun x y hxy => ?_, fun f => swept_update f g.window g, fun f view hview => ?_,
    fun e view he x y hc => (edit_sameOn g e).kept x y ⟨view, he, hc⟩⟩
  · obtain ⟨v, hv⟩ : ∃ v, g.cell? x y = some v := by
      rw [exists_cell?, hshape.width, hshape.height, hwidth, hheight]
      exact hxy
    obtain ⟨hcast, hcount⟩ := hrecorded.entry x y v hv
    rw [hshape.cellType, htype] at hcast
    exact ⟨v, hcast, hv, hcount⟩
  · have hrun : g.edit (.updateIn view f) = update f view.cells g := by
      simp [edit, hview, updateIn]
    rw [hrun]
    exact swept_update f view g

/-- Edits of a row of two cells: three of them fail, the last after its first cell. -/
def sampleEdits : List Edit :=
  [.insert 0 0 (.int 3), .insert 2 0 (.int 4), .insertIn ⟨⟨1, 2⟩, ⟨0, 1⟩⟩ 1 0 (.int (-1)),
    .updateIn ⟨⟨0, 2⟩, ⟨0, 1⟩⟩ fun x _ _ =>
      if x = 0 then .ok (.paint (.int 5)) else .error .noValue]

theorem editAll_law_sample : ∃ start, new? 2 1 (.int 7) .uint16 true = .ok start ∧
    (∃ v, CellType.cast? .uint16 (.int 5) = .ok v ∧ (start.editAll sampleEdits).cell? 0 0 = some v ∧
      (start.editAll sampleEdits).writes? 0 0 = some 2) ∧
    ∃ v, CellType.cast? .uint16 (.int 7) = .ok v ∧ (start.editAll sampleEdits).cell? 1 0 = some v ∧
      (start.editAll sampleEdits).writes? 1 0 = some 0 := by
  refine ⟨_, rfl, ?_⟩
  obtain ⟨hcells, -⟩ :=
    editAll_law (show new? 2 1 (.int 7) .uint16 true = .ok _ from rfl) sampleEdits
  exact ⟨hcells 0 0 (by decide), hcells 1 0 (by decide)⟩

end Grid
end TileWorld
