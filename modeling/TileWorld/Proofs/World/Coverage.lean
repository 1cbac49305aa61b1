import TileWorld.Proofs.World.CellRule

/-! When the map of a generator is laid out. Whether inks can be laid over an area does not hang on
what the grid held there before, so that a map is laid out exactly when each of its zones and climates
can be, whatever the order. -/
namespace TileWorld

/-- A window whose ends lie inside a world. -/
def World.Holds (world : World) (w : Window) : Prop :=
  0 ≤ w.columns.start ∧ 0 ≤ w.rows.start ∧ w.columns.stop ≤ world.width ∧
    w.rows.stop ≤ world.height

namespace Generator
variable {α : Type}

/-- A grid that the map of a generator can be laid on. -/
structure Canvas (g : Generator α) (grid : Grid) : Prop where
  cellType : grid.cellType = .uint16
  width : (grid.width : Int) = g.world.width
  height : (grid.height : Int) = g.world.height

variable {g : Generator α} {area : Context} {outline : Option (Shape α)} {grid grid' : Grid}

theorem Canvas.agreeOff (h : g.Canvas grid) {region : Int → Int → Prop}
    (hagree : grid.AgreeOff region grid') : g.Canvas grid' where
  cellType := hagree.cellType.trans h.cellType
  width := by rw [hagree.width, h.width]
  height := by rw [hagree.height, h.height]

theorem Canvas.holds_iff (h : g.Canvas grid) {w : Window} : grid.Holds w ↔ g.world.Holds w := by
  rw [Grid.Holds, h.width, h.height, World.Holds]

theorem Canvas.new? (h : Grid.new? g.world.width g.world.height (.int 0) .uint16 false = .ok grid) :
    g.Canvas grid := by
  obtain ⟨htype, hwidth, hheight⟩ := Grid.new?_ok h
  exact ⟨htype, hwidth, hheight⟩

variable [Scalar α] [NoiseSource α] [SquareRoot α]

/-- Inks that can be laid over an area: it lies in the world, and each of them covers it. -/
def Fills (g : Generator α) (area : Context) (outline : Option (Shape α)) (inks : List (Ink α)) :
    Prop :=
  g.world.Holds area.toWindow ∧ ∀ ink ∈ inks, g.Covers area outline ink

/-- A climate that can be laid over its columns of a zone, if it has cells there. -/
def ClimateFills (g : Generator α) (z : Zone α) (e : Nat × Interval) : Prop :=
  ∃ c, g.climates[e.1]? = some c ∧ ∃ area,
    Context.ofClimate? g.world z.rows e.2 c.depth = .ok area ∧
      (area.isEmpty = false → g.Fills area (some c.shape) (inks c.producer c.biomes))

/-- A zone that can be laid, and all of its climates over it. -/
def ZoneFills (g : Generator α) (z : Zone α) : Prop :=
  g.Fills (Context.ofZone g.world z.rows) none (inks z.producer z.biomes) ∧
    ∀ e ∈ z.climates, g.ClimateFills z e

theorem Canvas.lay? (h : g.Canvas grid) {inks : List (Ink α)}
    (hlay : g.lay? area outline inks grid = .ok grid') : g.Canvas grid' :=
  h.agreeOff (lay?_ok h.cellType hlay).1

/-- What an ink was laid on plays no part in whether it covers an area. -/
theorem covers_of_update? (hgrid : g.Canvas grid) {ink : Ink α} {layer : Layer}
    (hlayer : g.layer? area outline ink = .ok layer)
    (h : area.update? (stroke? layer) grid = .ok grid') : g.Covers area outline ink := by
  obtain ⟨hholds, -, hcells⟩ := Context.update?_ok h
  refine ⟨layer, hlayer, fun x y hxy => ?_⟩
  obtain ⟨v, hv, -⟩ := hcells x y hxy
  have hinside : 0 ≤ x ∧ x < grid.width ∧ 0 ≤ y ∧ y < grid.height := by
    have := (Window.contains_iff _ x y).mp hxy
    unfold Grid.Holds at hholds
    omega
  obtain ⟨u, hu⟩ := Grid.exists_cell?.mpr hinside
  rw [redraw?_stroke? hgrid.cellType hu] at hv
  obtain ⟨o, ho, hcast⟩ := bind_eq_ok.mp hv
  refine ⟨o, ho, fun k hk => ?_⟩
  obtain rfl : o = some k := hk
  exact (CellType.cast?_position.mp hcast).1

theorem exists_lay?_iff_fills (hgrid : g.Canvas grid) {inks : List (Ink α)} (hne : inks ≠ []) :
    (∃ grid', g.lay? area outline inks grid = .ok grid') ↔ g.Fills area outline inks := by
  constructor
  · rintro ⟨grid', h⟩
    refine ⟨hgrid.holds_iff.mp (lay?_holds hne h), ?_⟩
    clear hne
    induction inks generalizing grid with
    | nil => simp
    | cons ink rest ih =>
      obtain ⟨layer, hlayer, next, hnext, hrest⟩ := lay?_cons.mp h
      have hagree := (Context.update?_ok hnext).2.1
      exact List.forall_mem_cons.mpr
        ⟨covers_of_update? hgrid hlayer hnext, ih (hgrid.agreeOff hagree) hrest⟩
  · rintro ⟨hholds, hcovers⟩
    exact exists_lay? hgrid.cellType (hgrid.holds_iff.mpr hholds) hcovers

theorem Canvas.layClimate (h : g.Canvas grid) {c : Climate α} {next : Grid}
    (hnext : (if area.isEmpty then .ok grid
      else g.lay? area (some c.shape) (inks c.producer c.biomes) grid) = .ok next) :
    g.Canvas next := by
  split_ifs at hnext
  · exact Except.ok.inj hnext ▸ h
  · exact h.lay? hnext

theorem Canvas.layClimates (h : g.Canvas grid) {z : Zone α} {climates : List (Nat × Interval)}
    (hlay : (g.layClimates z climates grid).outcome = .ok grid') : g.Canvas grid' :=
  h.agreeOff (layClimates_ok h.cellType hlay).1

theorem exists_layClimate_iff_fills (hgrid : g.Canvas grid) {c : Climate α} :
    (∃ next, (if area.isEmpty then .ok grid
        else g.lay? area (some c.shape) (inks c.producer c.biomes) grid) = .ok next) ↔
      (area.isEmpty = false → g.Fills area (some c.shape) (inks c.producer c.biomes)) := by
  split_ifs with hempty
  · simp [hempty]
  · have hinks : inks c.producer c.biomes ≠ [] := List.cons_ne_nil _ _
    rw [exists_lay?_iff_fills hgrid hinks]
    simp [hempty]

theorem exists_layClimates_iff_fills (hgrid : g.Canvas grid) {z : Zone α}
    {climates : List (Nat × Interval)} :
    (∃ grid', (g.layClimates z climates grid).outcome = .ok grid') ↔
      ∀ e ∈ climates, g.ClimateFills z e := by
  induction climates generalizing grid with
  | nil => simp [layClimates]
  | cons e rest ih =>
    rw [List.forall_mem_cons]
    constructor
    · rintro ⟨grid', h⟩
      obtain ⟨c, hc, area, harea, next, hnext, hrest⟩ := layClimates_cons.mp h
      have hfills := (exists_layClimate_iff_fills hgrid).mp ⟨next, hnext⟩
      exact ⟨⟨c, hc, area, harea, hfills⟩, (ih (hgrid.layClimate hnext)).mp ⟨grid', hrest⟩⟩
    · rintro ⟨⟨c, hc, area, harea, hfills⟩, hothers⟩
      obtain ⟨next, hnext⟩ := (exists_layClimate_iff_fills hgrid).mpr hfills
      obtain ⟨grid', hrest⟩ := (ih (hgrid.layClimate hnext)).mpr hothers
      exact ⟨grid', layClimates_cons.mpr ⟨c, hc, area, harea, next, hnext, hrest⟩⟩

theorem exists_layZones_iff_fills (hgrid : g.Canvas grid) {zones : List (Zone α)} :
    (∃ grid', (g.layZones zones grid).outcome = .ok grid') ↔ ∀ z ∈ zones, g.ZoneFills z := by
  induction zones generalizing grid with
  | nil => simp [layZones]
  | cons z rest ih =>
    have hfill : (∃ filled, g.lay? (Context.ofZone g.world z.rows) none (inks z.producer z.biomes)
        grid = .ok filled) ↔ g.Fills (Context.ofZone g.world z.rows) none
          (inks z.producer z.biomes) := exists_lay?_iff_fills hgrid (List.cons_ne_nil _ _)
    rw [List.forall_mem_cons]
    constructor
    · rintro ⟨grid', h⟩
      obtain ⟨filled, hlay, covered, hcover, hrest⟩ := layZones_cons.mp h
      have hfilled := hgrid.lay? hlay
      exact ⟨⟨hfill.mp ⟨filled, hlay⟩, (exists_layClimates_iff_fills hfilled).mp ⟨covered, hcover⟩⟩,
        (ih (hfilled.layClimates hcover)).mp ⟨grid', hrest⟩⟩
    · rintro ⟨⟨hzone, hclimates⟩, hothers⟩
      obtain ⟨filled, hlay⟩ := hfill.mpr hzone
      have hfilled := hgrid.lay? hlay
      obtain ⟨covered, hcover⟩ := (exists_layClimates_iff_fills hfilled).mpr hclimates
      obtain ⟨grid', hrest⟩ := (ih (hfilled.layClimates hcover)).mpr hothers
      exact ⟨grid', layZones_cons.mpr ⟨filled, hlay, covered, hcover, hrest⟩⟩

omit [NoiseSource α] [SquareRoot α] [Scalar α] in
theorem exists_canvas_iff :
    (∃ grid, Grid.new? g.world.width g.world.height (.int 0) .uint16 false = .ok grid) ↔
      0 ≤ g.world.width ∧ 0 ≤ g.world.height := by
  have hfill : CellType.uint16.cast? (.int 0) = .ok (.int 0) := rfl
  rw [← not_lt, ← not_lt, ← not_or]
  unfold Grid.new?
  by_cases hsize : g.world.width < 0 ∨ g.world.height < 0
  · simp [hsize]
  · simp [hsize, hfill]

/-- Success of a map, zone by zone. -/
theorem exists_placeBiomes_iff_fills :
    (∃ map, g.placeBiomes.outcome = .ok map) ↔
      (0 ≤ g.world.width ∧ 0 ≤ g.world.height) ∧ ∀ z ∈ g.zones, g.ZoneFills z := by
  simp only [placeBiomes_outcome]
  rw [← exists_canvas_iff]
  constructor
  · rintro ⟨map, grid, hgrid, hlay⟩
    exact ⟨⟨grid, hgrid⟩, (exists_layZones_iff_fills (Canvas.new? hgrid)).mp ⟨map, hlay⟩⟩
  · rintro ⟨⟨grid, hgrid⟩, hzones⟩
    obtain ⟨map, hlay⟩ := (exists_layZones_iff_fills (Canvas.new? hgrid)).mpr hzones
    exact ⟨map, grid, hgrid, hlay⟩

end Generator
end TileWorld
