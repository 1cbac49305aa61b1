import TileWorld.Proofs.Grid.Update
import TileWorld.World.BiomeMap

/-! Layers of a biome map, seen from one cell. Laying inks over an area leaves at each of its cells
what the inks make of that cell alone, and touches no cell outside of the area. -/
namespace TileWorld

theorem CellType.cast?_position {k : Nat} {v : Value} :
    CellType.uint16.cast? (.int k) = .ok v ↔ k < 0x10000 ∧ v = .int k := by
  rw [cast?_int rfl]
  split_ifs with h
  · rw [Except.ok.injEq, eq_comm]
    exact ⟨fun hv => ⟨by omega, hv⟩, And.right⟩
  · simp only [false_iff]
    omega

namespace Generator
variable {α : Type} [Scalar α] [NoiseSource α] [SquareRoot α]
variable {g : Generator α} {area : Context} {outline : Option (Shape α)}

omit [NoiseSource α] [SquareRoot α] in
/-- A biome settles where its selection does not exceed its ratio times the bias of the height, the
row as a part of the rows of the world. -/
theorem selects?_eq_ok {b : Biome α} {worldHeight fade : α} {selection : BakedSampler α} {x y : Int}
    {settles : Bool} : selects? b worldHeight fade selection x y = .ok settles ↔
      ∃ row height bias v, Scalar.ofInt? y = .ok row ∧ Scalar.divide? row worldHeight = .ok height ∧
        heightBias? height b.heightRange fade = .ok bias ∧ selection x y = .ok v ∧
        settles = Scalar.le v (b.ratio * bias) := by
  simp only [selects?, bind_eq_ok, pure_eq_ok, Except.ok.injEq]
  constructor
  · rintro ⟨row, hrow, height, hheight, bias, hbias, v, hv, rfl⟩
    exact ⟨row, height, bias, v, hrow, hheight, hbias, hv, rfl⟩
  · rintro ⟨row, height, bias, v, hrow, hheight, hbias, hv, rfl⟩
    exact ⟨row, hrow, height, hheight, bias, hbias, v, hv, rfl⟩

/-- What an ink leaves at a cell of an area that held `v`. -/
def overlay? (g : Generator α) (area : Context) (outline : Option (Shape α)) (x y : Int) (v : Value)
    (ink : Ink α) : Except Fault Value := do
  let layer ← g.layer? area outline ink
  match ← layer x y with
  | some k => CellType.uint16.cast? (.int k)
  | none => pure v

theorem redraw?_stroke? {layer : Layer} {grid : Grid} {x y : Int} {v : Value}
    (htype : grid.cellType = .uint16) (hcell : grid.cell? x y = some v) :
    grid.redraw? (stroke? layer) x y = (do
      match ← layer x y with
      | some k => CellType.uint16.cast? (.int k)
      | none => pure v) := by
  unfold Grid.redraw? stroke?
  rw [Grid.get?_eq_ok.mpr hcell, ok_bind, htype]
  cases layer x y with
  | error e => rfl
  | ok o => cases o <;> rfl

theorem lay?_cons {ink : Ink α} {rest : List (Ink α)} {grid grid' : Grid} :
    g.lay? area outline (ink :: rest) grid = .ok grid' ↔
      ∃ layer, g.layer? area outline ink = .ok layer ∧
        ∃ next, area.update? (stroke? layer) grid = .ok next ∧
          g.lay? area outline rest next = .ok grid' := by
  rw [lay?]
  simp only [bind_eq_ok]

/-- Laying inks leaves at every cell of the area what they make of that cell alone. -/
theorem lay?_ok {inks : List (Ink α)} {grid grid' : Grid} (htype : grid.cellType = .uint16)
    (h : g.lay? area outline inks grid = .ok grid') :
    grid.AgreeOff (fun x y => area.contains x y = true) grid' ∧
      ∀ x y, area.contains x y = true → ∀ v, grid.cell? x y = some v →
        ∃ w, inks.foldlM (g.overlay? area outline x y) v = .ok w ∧ grid'.cell? x y = some w := by
  induction inks generalizing grid with
  | nil =>
    obtain rfl : grid = grid' := by simpa [lay?] using h
    exact ⟨Grid.AgreeOff.refl _ grid, fun x y _ v hv => ⟨v, rfl, hv⟩⟩
  | cons ink rest ih =>
    obtain ⟨layer, hlayer, next, hnext, hrest⟩ := lay?_cons.mp h
    obtain ⟨-, hagree, hcells⟩ := Context.update?_ok hnext
    obtain ⟨hagree', hcells'⟩ := ih (hagree.cellType.trans htype) hrest
    refine ⟨hagree.trans hagree', fun x y hc v hv => ?_⟩
    obtain ⟨u, hu, hcell⟩ := hcells x y hc
    obtain ⟨w, hw, hcell'⟩ := hcells' x y hc u hcell
    refine ⟨w, ?_, hcell'⟩
    have hfirst : g.overlay? area outline x y v ink = .ok u := by
      rw [redraw?_stroke? htype hv] at hu
      simpa [overlay?, hlayer] using hu
    simpa [List.foldlM_cons, hfirst] using hw

theorem lay?_holds {inks : List (Ink α)} {grid grid' : Grid} (hne : inks ≠ [])
    (h : g.lay? area outline inks grid = .ok grid') : grid.Holds area.toWindow := by
  cases inks with
  | nil => exact absurd rfl hne
  | cons ink rest =>
    obtain ⟨layer, -, next, hnext, -⟩ := lay?_cons.mp h
    exact (Context.update?_ok hnext).1

/-- An ink that gives each cell of an area a position that a map can hold, or none. -/
def Covers (g : Generator α) (area : Context) (outline : Option (Shape α)) (ink : Ink α) : Prop :=
  ∃ layer, g.layer? area outline ink = .ok layer ∧
    ∀ x y, area.contains x y = true → ∃ o, layer x y = .ok o ∧ ∀ k ∈ o, k < 0x10000

theorem exists_lay? {inks : List (Ink α)} {grid : Grid} (htype : grid.cellType = .uint16)
    (hholds : grid.Holds area.toWindow) (h : ∀ ink ∈ inks, g.Covers area outline ink) :
    ∃ grid', g.lay? area outline inks grid = .ok grid' := by
  induction inks generalizing grid with
  | nil => exact ⟨grid, rfl⟩
  | cons ink rest ih =>
    obtain ⟨layer, hlayer, hcovers⟩ := h ink List.mem_cons_self
    have hcells (x y : Int) (hc : area.contains x y = true) :
        ∃ v, grid.redraw? (stroke? layer) x y = .ok v := by
      obtain ⟨hx, hy⟩ := (Window.contains_iff _ x y).mp hc
      obtain ⟨hx₀, hy₀, hxw, hyh⟩ := hholds
      obtain ⟨v, hv⟩ := Grid.exists_cell?.mpr (show 0 ≤ x ∧ x < grid.width ∧ 0 ≤ y ∧
        y < grid.height by omega)
      obtain ⟨o, ho, hbound⟩ := hcovers x y hc
      rw [redraw?_stroke? htype hv, ho, ok_bind]
      cases o with
      | none => exact ⟨v, rfl⟩
      | some k =>
        have hk := hbound k (Option.mem_some_self k)
        exact ⟨.int k, CellType.cast?_position.mpr ⟨hk, rfl⟩⟩
    obtain ⟨next, hnext⟩ := Context.exists_update? hholds hcells
    obtain ⟨-, hagree, -⟩ := Context.update?_ok hnext
    have hholds' : next.Holds area.toWindow := by
      unfold Grid.Holds
      rw [hagree.width, hagree.height]
      exact hholds
    obtain ⟨grid', hgrid'⟩ := ih (hagree.cellType.trans htype) hholds'
      fun ink hink => h ink (List.mem_cons_of_mem _ hink)
    exact ⟨grid', lay?_cons.mpr ⟨layer, hlayer, next, hnext, hgrid'⟩⟩

/-- The law of one climate over a zone: its area is made, and laid unless it is empty. -/
theorem layClimates_cons {z : Zone α} {k : Nat} {columns : Interval} {rest : List (Nat × Interval)}
    {grid grid' : Grid} :
    (g.layClimates z ((k, columns) :: rest) grid).outcome = .ok grid' ↔
      ∃ c, g.climates[k]? = some c ∧ ∃ area,
        Context.ofClimate? g.world z.rows columns c.depth = .ok area ∧
        ∃ next, (if area.isEmpty then .ok grid
            else g.lay? area (some c.shape) (inks c.producer c.biomes) grid) = .ok next ∧
          (g.layClimates z rest next).outcome = .ok grid' := by
  rw [layClimates]
  cases g.climates[k]? with
  | none => simp
  | some c =>
    simp only [Logged.outcome_bind, Logged.outcome_lift, bind_eq_ok, Option.some.injEq,
      exists_eq_left']
    refine exists_congr fun area => and_congr_right fun _ => ?_
    split_ifs with hempty
    · simp
    · simp [bind_eq_ok]

theorem layZones_cons {z : Zone α} {rest : List (Zone α)} {grid grid' : Grid} :
    (g.layZones (z :: rest) grid).outcome = .ok grid' ↔
      ∃ filled, g.lay? (Context.ofZone g.world z.rows) none (inks z.producer z.biomes) grid =
          .ok filled ∧
        ∃ covered, (g.layClimates z z.climates filled).outcome = .ok covered ∧
          (g.layZones rest covered).outcome = .ok grid' := by
  rw [layZones]
  simp only [Logged.outcome_bind, Logged.outcome_lift, bind_eq_ok]

end Generator
end TileWorld
