import TileWorld.Proofs.Baking.Tree
import TileWorld.Proofs.Grid.Views
import TileWorld.Proofs.World.Positions

/-! Painting zone by zone, with painters made ready once for each zone, gives every cell what the
painter of its own biome gives that cell alone. -/
namespace TileWorld

namespace BiomeMap

theorem getD_marked (seen : Array Bool) (values : List Value) (k : Nat) :
    (values.foldl (fun seen v => seen.setIfInBounds (position v) true) seen).getD k false = true ↔
      seen.getD k false = true ∨ k < seen.size ∧ ∃ v ∈ values, position v = k := by
  induction values generalizing seen with
  | nil => simp
  | cons v rest ih =>
    rw [List.foldl_cons, ih, Array.size_setIfInBounds]
    simp only [Array.getD_eq_getD_getElem?, Array.getElem?_setIfInBounds, List.exists_mem_cons_iff]
    by_cases hv : position v = k
    · by_cases hk : k < seen.size
      · simp [hv, hk]
      · simp [hv, hk]
    · simp [hv]

theorem mem_present {values : List Value} {k : Nat} :
    k ∈ present values ↔ k < positions ∧ ∃ v ∈ values, position v = k := by
  have hblank : (Array.replicate positions false).getD k false = false := by
    rw [Array.getD_eq_getD_getElem?, Array.getElem?_replicate]
    split_ifs <;> rfl
  rw [present, List.mem_filter, List.mem_range, getD_marked, hblank, Array.size_replicate]
  simp only [Bool.false_eq_true, false_or, and_self_left]

end BiomeMap

namespace Generator
variable {α : Type} [Scalar α] [NoiseSource α] {g : Generator α} {area : Context}

section Table
variable {ks : List Nat} {table painters : Painters}

/-- The painters of the biomes at some positions, made ready, and no others. -/
theorem painters?_ok (h : g.painters? area ks table = .ok painters) :
    (∀ k, k ∉ ks → painters[k]? = table[k]?) ∧ painters.size = table.size ∧
      ∀ k ∈ ks, k < table.size → ∃ b painter, g.biomes[k]? = some b ∧
        b.painter.bake area area.toWindow = .ok painter ∧ painters[k]? = some (some painter) := by
  induction ks generalizing table with
  | nil =>
    obtain rfl : table = painters := by simpa [painters?] using h
    simp
  | cons j rest ih =>
    rw [painters?] at h
    cases hb : g.biomes[j]? with
    | none => simp [hb] at h
    | some b =>
      simp only [hb] at h
      obtain ⟨painter, hpainter, h⟩ := bind_eq_ok.mp h
      obtain ⟨hold, hsize, hnew⟩ := ih h
      rw [Array.size_setIfInBounds] at hsize hnew
      refine ⟨fun k hk => ?_, hsize, fun k hk hlt => ?_⟩
      · rw [List.mem_cons, not_or] at hk
        rw [hold k hk.2, Array.getElem?_setIfInBounds_ne (Ne.symm hk.1)]
      · by_cases hrest : k ∈ rest
        · exact hnew k hrest hlt
        · obtain rfl : k = j := (List.mem_cons.mp hk).resolve_right hrest
          refine ⟨b, painter, hb, hpainter, ?_⟩
          rw [hold k hrest, Array.getElem?_setIfInBounds_self_of_lt hlt]

theorem painters?_error {e : Fault} (hks : ∀ k ∈ ks, k < g.biomes.size)
    (h : g.painters? area ks table = .error e) :
    ∃ k ∈ ks, ∃ b, g.biomes[k]? = some b ∧ b.painter.bake area area.toWindow = .error e := by
  induction ks generalizing table with
  | nil => simp [painters?] at h
  | cons j rest ih =>
    rw [List.forall_mem_cons] at hks
    rw [painters?, Array.getElem?_eq_getElem hks.1] at h
    cases hb : g.biomes[j].painter.bake area area.toWindow with
    | error e' =>
      obtain rfl : e' = e := by simpa [hb] using h
      exact ⟨j, List.mem_cons_self, _, Array.getElem?_eq_getElem hks.1, hb⟩
    | ok painter =>
      simp only [hb, ok_bind] at h
      obtain ⟨k, hk, hfails⟩ := ih hks.2 h
      exact ⟨k, List.mem_cons_of_mem _ hk, hfails⟩

/-- A generator whose biomes are painted by other painters. -/
def repainted (g : Generator α) (painters : Nat → Brush α) : Generator α :=
  { g with biomes := g.biomes.mapIdx fun k b => { b with painter := painters k } }

theorem painters?_repainted {brushes : Nat → Brush α}
    (hsame : ∀ k ∈ ks, ∀ b, g.biomes[k]? = some b → brushes k = b.painter) :
    (g.repainted brushes).painters? area ks table = g.painters? area ks table := by
  induction ks generalizing table with
  | nil => rfl
  | cons k rest ih =>
    rw [List.forall_mem_cons] at hsame
    simp only [painters?, repainted, Array.getElem?_mapIdx]
    cases hb : g.biomes[k]? with
    | none => rfl
    | some b =>
      simp only [Option.map_some, hsame.1 b hb]
      exact bind_congr fun painter => ih hsame.2

omit [Scalar α] [NoiseSource α] in
theorem biomeNames_repainted (brushes : Nat → Brush α) (ks : List Nat) :
    (g.repainted brushes).biomeNames ks = g.biomeNames ks := by
  simp only [biomeNames, repainted, Array.getElem?_mapIdx, Option.map_map]
  rfl

end Table

/-- The positions whose painters are made ready for a zone. -/
def zonePositions (g : Generator α) (map : Grid) (z : Zone α) : List Nat :=
  BiomeMap.present (map.viewRows (Context.ofZone g.world z.rows).toWindow).flatten

/-- The painters of a zone. -/
def zonePainters? (g : Generator α) (map : Grid) (z : Zone α) : Except Fault Painters :=
  g.painters? (Context.ofZone g.world z.rows) (g.zonePositions map z)
    (Array.replicate g.biomes.size none)

/-- One zone painted, its terrain size aside. -/
def paintZone? (g : Generator α) (map : Grid) (z : Zone α) (terrain : Grid) : Except Fault Grid := do
  let _ ← map.view? (Context.ofZone g.world z.rows).toWindow
  let painters ← g.zonePainters? map z
  (Context.ofZone g.world z.rows).update? (paint? painters map) terrain

/-- What a cell of a zone is painted: the painter of its own biome, placed against the zone, is
applied to the fill. -/
def tileOn? (g : Generator α) (map : Grid) (cellType : CellType) (fill : Value) (z : Zone α)
    (x y : Int) : Except Fault Value := do
  match g.biomes[← BiomeMap.get? map x y]? with
  | none => .error .outOfRange
  | some b =>
    let area := Context.ofZone g.world z.rows
    cellType.cast? (← b.painter.painted? area area.toWindow x y fill)

theorem paintZones_cons (map : Grid) (z : Zone α) (rest : List (Zone α)) (terrain : Grid) :
    (g.paintZones map (z :: rest) terrain).outcome =
      if Scalar.same z.terrainSize 0.0 then (g.paintZones map rest terrain).outcome
      else g.paintZone? map z terrain >>= fun painted =>
        (g.paintZones map rest painted).outcome := by
  rw [paintZones]
  by_cases hsize : Scalar.same z.terrainSize 0.0 = true
  · rw [if_pos hsize, if_pos hsize]
  · rw [if_neg hsize, if_neg hsize]
    cases hview : map.view? (Context.ofZone g.world z.rows).toWindow with
    | error e => simp [paintZone?, hview]
    | ok view =>
      obtain rfl := (Grid.view?_eq_ok.mp hview).2
      simp [paintZone?, hview, zonePainters?, zonePositions]

/-- Painters of biomes that do not occur in the zones may be any. -/
theorem paintZones_repainted {map : Grid} {zones : List (Zone α)} {brushes : Nat → Brush α}
    (hsame : ∀ z ∈ zones, Scalar.same z.terrainSize 0.0 = false → ∀ k ∈ g.zonePositions map z,
      ∀ b, g.biomes[k]? = some b → brushes k = b.painter) (terrain : Grid) :
    (g.repainted brushes).paintZones map zones terrain = g.paintZones map zones terrain := by
  induction zones generalizing terrain with
  | nil => rfl
  | cons z rest ih =>
    rw [List.forall_mem_cons] at hsame
    have hrest := ih hsame.2
    rw [paintZones, paintZones]
    cases hsize : Scalar.same z.terrainSize 0.0 with
    | true => simpa using hrest terrain
    | false =>
      have hworld : (g.repainted brushes).world = g.world := rfl
      have hcount : (g.repainted brushes).biomes.size = g.biomes.size := Array.size_mapIdx
      have hpainters (area : Context) (table : Painters) :
          (g.repainted brushes).painters? area (g.zonePositions map z) table =
            g.painters? area (g.zonePositions map z) table := painters?_repainted (hsame.1 hsize)
      rw [zonePositions] at hpainters
      simp only [hworld, hcount, biomeNames_repainted, Bool.false_eq_true, if_false, hrest]
      cases hview : map.view? (Context.ofZone g.world z.rows).toWindow with
      | error e => simp only [Logged.lift_error_bind]
      | ok view =>
        obtain rfl := (Grid.view?_eq_ok.mp hview).2
        simp only [Logged.lift_ok_bind, hpainters]

/-- A map as a generator makes it. -/
structure Maps (g : Generator α) (map : Grid) : Prop where
  charted : g.Charted map
  width : (map.width : Int) = g.world.width
  height : (map.height : Int) = g.world.height

/-- A zone whose rows lie in its world. -/
def Lies (g : Generator α) (z : Zone α) : Prop :=
  0 ≤ z.rows.start ∧ z.rows.start ≤ z.rows.stop ∧ z.rows.stop ≤ g.world.height

section Zone
variable {map terrain terrain' : Grid} {z : Zone α}

omit [Scalar α] [NoiseSource α] in
theorem Lies.holds (hz : g.Lies z) {grid : Grid} (hwidth : (grid.width : Int) = g.world.width)
    (hheight : (grid.height : Int) = g.world.height) :
    grid.Holds (Context.ofZone g.world z.rows).toWindow := by
  obtain ⟨hstart, -, hstop⟩ := hz
  exact ⟨le_rfl, hstart, hwidth.ge, hstop.trans hheight.ge⟩

omit [Scalar α] [NoiseSource α] in
/-- Every cell of a zone has the position of a biome, for which a painter is made ready. -/
theorem Maps.mem_zonePositions (hmap : g.Maps map) (hz : g.Lies z) {x y : Int}
    (hxy : (Context.ofZone g.world z.rows).contains x y = true) :
    ∃ k, BiomeMap.get? map x y = .ok k ∧ k < g.biomes.size ∧ k ∈ g.zonePositions map z := by
  have hholds := hz.holds hmap.width hmap.height
  have hcell : ∃ v, map.cell? x y = some v := by
    have hinside := (Window.contains_iff _ x y).mp hxy
    obtain ⟨hx, hy, hwidth, hheight⟩ := hholds
    rw [Grid.exists_cell?]
    omega
  obtain ⟨v, hv⟩ := hcell
  obtain ⟨k, rfl, hlt, hbound⟩ := hmap.charted.2 x y v hv
  refine ⟨k, ?_, hlt, ?_⟩
  · rw [BiomeMap.get?, Grid.get?_eq_ok.mpr hv]
    rfl
  · have hwidth : (0 : Int) ≤ g.world.width := by have := hmap.width; omega
    rw [zonePositions, BiomeMap.mem_present]
    exact ⟨hbound, .int k, (Grid.mem_viewRows hholds hwidth hz.2.1).mpr ⟨x, y, hxy, hv⟩, rfl⟩

omit [Scalar α] [NoiseSource α] in
/-- Only positions that cells of the zone have are made ready. -/
theorem Maps.exists_of_mem (hmap : g.Maps map) (hz : g.Lies z) {k : Nat}
    (hk : k ∈ g.zonePositions map z) :
    ∃ x y, (Context.ofZone g.world z.rows).contains x y = true ∧ BiomeMap.get? map x y = .ok k := by
  have hwidth : (0 : Int) ≤ g.world.width := by have := hmap.width; omega
  obtain ⟨-, v, hv, hposition⟩ := BiomeMap.mem_present.mp hk
  have hmem := Grid.mem_viewRows (v := v) (hz.holds hmap.width hmap.height) hwidth hz.2.1
  obtain ⟨x, y, hxy, hcell⟩ := hmem.mp hv
  refine ⟨x, y, hxy, ?_⟩
  rw [BiomeMap.get?, Grid.get?_eq_ok.mpr hcell, ← hposition]
  rfl

theorem Maps.exists_painter (hmap : g.Maps map) (hz : g.Lies z) {painters : Painters}
    (hpainters : g.zonePainters? map z = .ok painters) {x y : Int}
    (hxy : (Context.ofZone g.world z.rows).contains x y = true) :
    ∃ k b painter, BiomeMap.get? map x y = .ok k ∧ g.biomes[k]? = some b ∧
      b.painter.bake (Context.ofZone g.world z.rows) (Context.ofZone g.world z.rows).toWindow =
        .ok painter ∧ painters[k]? = some (some painter) := by
  obtain ⟨k, hk, hlt, hmem⟩ := hmap.mem_zonePositions hz hxy
  have hready := (painters?_ok hpainters).2.2 k hmem (by rwa [Array.size_replicate])
  obtain ⟨b, painter, hb, hbake, hentry⟩ := hready
  exact ⟨k, b, painter, hk, hb, hbake, hentry⟩

/-- A cell that holds the fill is redrawn as its own painter has it. -/
theorem Maps.redraw?_eq (hmap : g.Maps map) (hz : g.Lies z) {painters : Painters}
    (hpainters : g.zonePainters? map z = .ok painters) {fill v : Value}
    (hfill : terrain.cellType.cast? fill = .ok v) {x y : Int}
    (hxy : (Context.ofZone g.world z.rows).contains x y = true)
    (hv : terrain.cell? x y = some v) :
    terrain.redraw? (paint? painters map) x y = g.tileOn? map terrain.cellType fill z x y := by
  obtain ⟨k, b, painter, hk, hb, hbake, hentry⟩ := hmap.exists_painter hz hpainters hxy
  simp only [Grid.redraw?, paint?, tileOn?, Brush.painted?, Grid.get?_eq_ok.mpr hv, hk, hb, hbake,
    hentry, ok_bind, bind_assoc, pure_eq_ok]
  cases painter x y with
  | error e => rfl
  | ok stroke =>
    cases stroke with
    | keep => exact hfill.symm
    | paint w => rfl

/-- A zone that succeeds paints each of its cells as the cell's own painter has it. -/
theorem Maps.paintZone?_ok (hmap : g.Maps map) (hz : g.Lies z) {fill v : Value}
    (hfill : terrain.cellType.cast? fill = .ok v)
    (hblank : ∀ x y, (Context.ofZone g.world z.rows).contains x y = true →
      terrain.cell? x y = some v)
    (h : g.paintZone? map z terrain = .ok terrain') :
    terrain.AgreeOff (fun x y => (Context.ofZone g.world z.rows).contains x y = true) terrain' ∧
      ∀ x y, (Context.ofZone g.world z.rows).contains x y = true →
        ∃ w, g.tileOn? map terrain.cellType fill z x y = .ok w ∧ terrain'.cell? x y = some w := by
  obtain ⟨view, -, h⟩ := bind_eq_ok.mp h
  obtain ⟨painters, hpainters, h⟩ := bind_eq_ok.mp h
  obtain ⟨-, hagree, hcells⟩ := Context.update?_ok h
  refine ⟨hagree, fun x y hxy => ?_⟩
  have hcell := hcells x y hxy
  rwa [hmap.redraw?_eq hz hpainters hfill hxy (hblank x y hxy)] at hcell

/-- A zone fails as the painter of one of its cells does, at that cell. -/
theorem Maps.paintZone?_error (hmap : g.Maps map) (hz : g.Lies z)
    (hterrain : terrain.Holds (Context.ofZone g.world z.rows).toWindow) {fill v : Value}
    (hfill : terrain.cellType.cast? fill = .ok v)
    (hblank : ∀ x y, (Context.ofZone g.world z.rows).contains x y = true →
      terrain.cell? x y = some v) {e : Fault}
    (h : g.paintZone? map z terrain = .error e) :
    ∃ x y, (Context.ofZone g.world z.rows).contains x y = true ∧
      g.tileOn? map terrain.cellType fill z x y = .error e := by
  have hview := Grid.view?_eq_ok.mpr ⟨hz.holds hmap.width hmap.height, rfl⟩
  rw [paintZone?, hview, ok_bind] at h
  cases hpainters : g.zonePainters? map z with
  | ok painters =>
    rw [hpainters, ok_bind] at h
    obtain ⟨x, y, hxy, he⟩ := Context.update?_error hterrain h
    rw [hmap.redraw?_eq hz hpainters hfill hxy (hblank x y hxy)] at he
    exact ⟨x, y, hxy, he⟩
  | error e' =>
    obtain rfl : e' = e := by simpa [hpainters] using h
    have hlt : ∀ k ∈ g.zonePositions map z, k < g.biomes.size := by
      intro k hk
      obtain ⟨x, y, hxy, hget⟩ := hmap.exists_of_mem hz hk
      obtain ⟨j, hj, hlt, -⟩ := hmap.mem_zonePositions hz hxy
      obtain rfl : k = j := Except.ok.inj (hget.symm.trans hj)
      exact hlt
    rw [zonePainters?] at hpainters
    obtain ⟨k, hk, b, hb, hbake⟩ := painters?_error hlt hpainters
    obtain ⟨x, y, hxy, hget⟩ := hmap.exists_of_mem hz hk
    refine ⟨x, y, hxy, ?_⟩
    simp only [tileOn?, hget, hb, Brush.painted?, hbake, ok_bind, error_bind]

/-- A cell of a zone that is left as it is, or else painted as its own painter has it. -/
def TileAt (g : Generator α) (map : Grid) (fill v : Value) (z : Zone α) (terrain : Grid)
    (x y : Int) : Prop :=
  if Scalar.same z.terrainSize 0.0 then terrain.cell? x y = some v
  else ∃ w, g.tileOn? map terrain.cellType fill z x y = .ok w ∧ terrain.cell? x y = some w

/-- A grid of the world's size that holds one value from a row on. -/
structure Blank (g : Generator α) (v : Value) (top : Int) (terrain : Grid) : Prop where
  width : (terrain.width : Int) = g.world.width
  height : (terrain.height : Int) = g.world.height
  cell? : ∀ x y, 0 ≤ x → x < g.world.width → top ≤ y → y < g.world.height →
    terrain.cell? x y = some v

omit [Scalar α] [NoiseSource α] in
theorem Blank.zone {v : Value} {top : Int} (hblank : g.Blank v top terrain) (hz : g.Lies z)
    (htop : top ≤ z.rows.start) {x y : Int}
    (hxy : (Context.ofZone g.world z.rows).contains x y = true) : terrain.cell? x y = some v := by
  obtain ⟨⟨hx, hxw⟩, hy, hyh⟩ := (Window.contains_iff _ x y).mp hxy
  exact hblank.cell? x y hx hxw (htop.trans hy) (hyh.trans_le hz.2.2)

omit [Scalar α] [NoiseSource α] in
theorem Blank.below {v : Value} {top next : Int} (hblank : g.Blank v top terrain)
    (htop : top ≤ next) (hagree : terrain.AgreeOff (fun _ y => y < next) terrain') :
    g.Blank v next terrain' where
  width := by rw [hagree.width, hblank.width]
  height := by rw [hagree.height, hblank.height]
  cell? x y hx hxw hy hyh := by
    rw [hagree.cell? x y (Int.not_lt.mpr hy)]
    exact hblank.cell? x y hx hxw (htop.trans hy) hyh

omit [Scalar α] [NoiseSource α] in
theorem lies_of_tiles {zones : List (Zone α)} {top : Int} (htop : 0 ≤ top)
    (htiles : Interval.Tiles top g.world.height (zones.map (·.rows))) (hz : z ∈ zones) :
    g.Lies z ∧ top ≤ z.rows.start := by
  obtain ⟨hstart, hlt, hstop⟩ := htiles.bounds (List.mem_map_of_mem hz)
  exact ⟨⟨htop.trans hstart, hlt.le, hstop⟩, hstart⟩

/-- Zones painted one after another reach no row above the first of them. -/
theorem Maps.paintZones_ok (hmap : g.Maps map) {zones : List (Zone α)} {top : Int} (htop : 0 ≤ top)
    (htiles : Interval.Tiles top g.world.height (zones.map (·.rows))) {fill v : Value}
    (hfill : terrain.cellType.cast? fill = .ok v) (hblank : g.Blank v top terrain)
    (h : (g.paintZones map zones terrain).outcome = .ok terrain') :
    terrain.AgreeOff (fun _ y => top ≤ y) terrain' ∧
      ∀ z ∈ zones, ∀ x y, (Context.ofZone g.world z.rows).contains x y = true →
        g.TileAt map fill v z terrain' x y := by
  induction zones generalizing terrain top with
  | nil =>
    obtain rfl : terrain = terrain' := by simpa [paintZones] using h
    exact ⟨Grid.AgreeOff.refl _ terrain, by simp⟩
  | cons z rest ih =>
    have hz := (lies_of_tiles htop htiles List.mem_cons_self).1
    obtain ⟨rfl, hlt, hrest⟩ := htiles
    -- The first zone leaves the rows below it blank, and its own cells as they have to be.
    have hstep : ∃ next, (g.paintZones map rest next).outcome = .ok terrain' ∧
        terrain.AgreeOff (fun x y => (Context.ofZone g.world z.rows).contains x y = true) next ∧
        ∀ x y, (Context.ofZone g.world z.rows).contains x y = true →
          g.TileAt map fill v z next x y := by
      rw [paintZones_cons] at h
      by_cases hsize : Scalar.same z.terrainSize 0.0 = true
      · rw [if_pos hsize] at h
        refine ⟨terrain, h, Grid.AgreeOff.refl _ terrain, fun x y hxy => ?_⟩
        rw [TileAt, if_pos hsize]
        exact hblank.zone hz le_rfl hxy
      · rw [if_neg hsize] at h
        obtain ⟨next, hnext, h⟩ := bind_eq_ok.mp h
        obtain ⟨hagree, hcells⟩ :=
          hmap.paintZone?_ok hz hfill (fun x y hxy => hblank.zone hz le_rfl hxy) hnext
        refine ⟨next, h, hagree, fun x y hxy => ?_⟩
        rw [TileAt, if_neg hsize, hagree.cellType]
        exact hcells x y hxy
    obtain ⟨next, hnext, hagree, hcells⟩ := hstep
    have hrows {x y : Int} (hxy : (Context.ofZone g.world z.rows).contains x y = true) :
        z.rows.start ≤ y ∧ y < z.rows.stop := ((Window.contains_iff _ x y).mp hxy).2
    have hnextBlank : g.Blank v z.rows.stop next :=
      hblank.below hlt.le (hagree.mono fun x y hxy => (hrows hxy).2)
    rw [← hagree.cellType] at hfill
    obtain ⟨hagree', hcells'⟩ := ih (htop.trans hlt.le) hrest hfill hnextBlank hnext
    refine ⟨(hagree.mono fun x y hxy => (hrows hxy).1).trans
      (hagree'.mono fun _ y hy => hlt.le.trans hy), ?_⟩
    rw [List.forall_mem_cons]
    refine ⟨fun x y hxy => ?_, hcells'⟩
    have hkeep := hagree'.cell? x y (Int.not_le.mpr (hrows hxy).2)
    have htile := hcells x y hxy
    rwa [TileAt, ← hagree'.cellType, ← hkeep] at htile

theorem Maps.paintZones_error (hmap : g.Maps map) {zones : List (Zone α)} {top : Int}
    (htop : 0 ≤ top) (htiles : Interval.Tiles top g.world.height (zones.map (·.rows)))
    {fill v : Value} (hfill : terrain.cellType.cast? fill = .ok v) (hblank : g.Blank v top terrain)
    {e : Fault} (h : (g.paintZones map zones terrain).outcome = .error e) :
    ∃ z ∈ zones, Scalar.same z.terrainSize 0.0 = false ∧ ∃ x y,
      (Context.ofZone g.world z.rows).contains x y = true ∧
        g.tileOn? map terrain.cellType fill z x y = .error e := by
  induction zones generalizing terrain top with
  | nil => simp [paintZones] at h
  | cons z rest ih =>
    have hz := (lies_of_tiles htop htiles List.mem_cons_self).1
    obtain ⟨rfl, hlt, hrest⟩ := htiles
    rw [paintZones_cons] at h
    by_cases hsize : Scalar.same z.terrainSize 0.0 = true
    · rw [if_pos hsize] at h
      have hbelow := hblank.below hlt.le (Grid.AgreeOff.refl _ terrain)
      obtain ⟨z', hz', hfails⟩ := ih (htop.trans hlt.le) hrest hfill hbelow h
      exact ⟨z', List.mem_cons_of_mem _ hz', hfails⟩
    · rw [if_neg hsize] at h
      have hfresh {x y : Int} := hblank.zone hz le_rfl (x := x) (y := y)
      cases hpaint : g.paintZone? map z terrain with
      | error e' =>
        obtain rfl : e' = e := by simpa [hpaint] using h
        have hholds := hz.holds hblank.width hblank.height
        have hcell := hmap.paintZone?_error hz hholds hfill (fun _ _ => hfresh) hpaint
        exact ⟨z, List.mem_cons_self, by simpa using hsize, hcell⟩
      | ok next =>
        rw [hpaint, ok_bind] at h
        have hagree := (hmap.paintZone?_ok hz hfill (fun _ _ => hfresh) hpaint).1
        have hbelow : g.Blank v z.rows.stop next :=
          hblank.below hlt.le (hagree.mono fun x y hxy => ((Window.contains_iff _ x y).mp hxy).2.2)
        have htype := hagree.cellType
        rw [← htype] at hfill
        obtain ⟨z', hz', hfails⟩ := ih (htop.trans hlt.le) hrest hfill hbelow h
        rw [htype] at hfails
        exact ⟨z', List.mem_cons_of_mem _ hz', hfails⟩

end Zone

theorem build_maps [SquareRoot α] {s : Settings α} (hg : (build s).outcome = .ok g) {map : Grid}
    (hmap : g.biomeMap.outcome = .ok map) : g.Maps map := by
  obtain ⟨hcharted, hwidth, hheight⟩ := biomeMap_charted hg hmap
  exact ⟨hcharted, hwidth, hheight⟩

theorem paintTerrain_outcome {map : Grid} (hmap : g.Maps map) (fill : Value)
    (cellType : CellType) : (g.paintTerrain map fill cellType).outcome = (do
      let terrain ← Grid.new? g.world.width g.world.height fill cellType false
      (g.paintZones map g.zones terrain).outcome) := by
  rw [paintTerrain, if_neg (by have := hmap.width; have := hmap.height; omega)]
  simp only [Logged.outcome_bind, Logged.outcome_lift]

omit [Scalar α] [NoiseSource α] in
theorem blank_new? {terrain : Grid} {fill v : Value} {cellType : CellType}
    (hfill : cellType.cast? fill = .ok v)
    (h : Grid.new? g.world.width g.world.height fill cellType false = .ok terrain) :
    terrain.cellType = cellType ∧ g.Blank v 0 terrain := by
  obtain ⟨htype, hwidth, hheight⟩ := Grid.new?_ok h
  refine ⟨htype, hwidth, hheight, fun x y hx hxw hy hyh => ?_⟩
  have hcell : ∃ u, terrain.cell? x y = some u := by
    rw [Grid.exists_cell?]
    omega
  obtain ⟨u, hu⟩ := hcell
  rw [hu, Except.ok.inj ((Grid.new?_cell? h hu).symm.trans hfill)]

omit [NoiseSource α] in
/-- Each biome has the painter it is declared with. -/
theorem build_painters {s : Settings α} (hg : (build s).outcome = .ok g) :
    g.biomes.toList.map (·.painter) = s.sorted.biomes.map (·.2.painter) := by
  obtain ⟨roster, rows, hroster, -, zones, stream, rfl, -⟩ := build_ok hg
  refine map_eq_map_of_forall₂ hroster.biomes fun e b h => ?_
  exact h.2.2.2.2.2.1

/-- Tiles of the sample are numbered from three. -/
theorem painted_tiled {g : Generator Float} (hg : (build Settings.tiled).outcome = .ok g) {k : Nat}
    {b : Biome Float} (hb : g.biomes[k]? = some b) (area : Context) (x y : Int) (fill : Value) :
    (b.painter.painted? area area.toWindow x y fill >>= CellType.uint8.cast?) =
      .ok (.int (k + 3)) := by
  have hpainters : g.biomes.toList.map (·.painter) = [.fill (.int 3), .fill (.int 4)] := by
    rw [build_painters hg, Settings.tiled_named.sorted (by decide)]
    rfl
  have hk := congrArg (·[k]?) hpainters
  simp only [List.getElem?_map, Array.getElem?_toList, hb, Option.map_some] at hk
  match k, hk with
  | 0, hk => rw [Option.some.inj hk]; rfl
  | 1, hk => rw [Option.some.inj hk]; rfl

/-- Brushes that paint the biomes of some zones as before, as far as cells to be painted have them. -/
def KeepsPainters (g : Generator α) (map : Grid) (zones : List (Zone α)) (brushes : Nat → Brush α) :
    Prop :=
  ∀ z ∈ zones, Scalar.same z.terrainSize 0.0 = false → ∀ x y,
    (Context.ofZone g.world z.rows).contains x y = true →
    ∀ k b, BiomeMap.get? map x y = .ok k → g.biomes[k]? = some b → brushes k = b.painter

/-- Painting a map of the same generator. Every cell of a zone has the position of a biome, whose
painter is among those made ready for the zone. Zones of terrain size zero keep the fill; in all
others each cell holds what its own painter, placed against the zone alone, makes of the fill. The
run fails only as the painter of one of these cells does, and painters that occur in no zone painted
play no part. -/
theorem terrain_follows_painters [SquareRoot α] {s : Settings α} (hg : (build s).outcome = .ok g)
    {map : Grid} (hmap : g.biomeMap.outcome = .ok map) {cellType : CellType} {fill v : Value}
    (hfill : cellType.cast? fill = .ok v) :
    (∀ z ∈ g.zones, ∀ x y, (Context.ofZone g.world z.rows).contains x y = true →
      ∃ k, BiomeMap.get? map x y = .ok k ∧ k < g.biomes.size ∧
        ∀ painters, g.zonePainters? map z = .ok painters →
          ∃ painter, painters[k]? = some (some painter)) ∧
    (∀ terrain, (g.paintTerrain map fill cellType).outcome = .ok terrain →
      ∀ z ∈ g.zones, ∀ x y, (Context.ofZone g.world z.rows).contains x y = true →
        if Scalar.same z.terrainSize 0.0 then terrain.cell? x y = some v
        else ∃ k b w, BiomeMap.get? map x y = .ok k ∧ g.biomes[k]? = some b ∧
          (b.painter.painted? (Context.ofZone g.world z.rows)
            (Context.ofZone g.world z.rows).toWindow x y fill >>= cellType.cast?) = .ok w ∧
          terrain.cell? x y = some w) ∧
    (∀ e, (g.paintTerrain map fill cellType).outcome = .error e →
      ∃ z ∈ g.zones, Scalar.same z.terrainSize 0.0 = false ∧ ∃ x y,
        (Context.ofZone g.world z.rows).contains x y = true ∧
        ∃ k b, BiomeMap.get? map x y = .ok k ∧ g.biomes[k]? = some b ∧
          (b.painter.painted? (Context.ofZone g.world z.rows)
            (Context.ofZone g.world z.rows).toWindow x y fill >>= cellType.cast?) = .error e) ∧
    (∀ zones ⊆ g.zones, ∀ brushes, g.KeepsPainters map zones brushes → ∀ terrain,
      (g.repainted brushes).paintZones map zones terrain = g.paintZones map zones terrain) ∧
    ∀ brushes, g.KeepsPainters map g.zones brushes →
      (g.repainted brushes).paintTerrain map fill cellType = g.paintTerrain map fill cellType := by
  have hmaps := build_maps hg hmap
  have htiles := (build_rows hg).2
  rw [← (build_settings hg).1] at htiles
  have hlies {z : Zone α} (hz : z ∈ g.zones) : g.Lies z := (lies_of_tiles le_rfl htiles hz).1
  have htile {z : Zone α} (hz : z ∈ g.zones) {x y : Int}
      (hxy : (Context.ofZone g.world z.rows).contains x y = true) {r : Except Fault Value}
      (h : g.tileOn? map cellType fill z x y = r) :
      ∃ k b, BiomeMap.get? map x y = .ok k ∧ g.biomes[k]? = some b ∧
        (b.painter.painted? (Context.ofZone g.world z.rows)
          (Context.ofZone g.world z.rows).toWindow x y fill >>= cellType.cast?) = r := by
    obtain ⟨k, hk, hlt, -⟩ := hmaps.mem_zonePositions (hlies hz) hxy
    have hb := Array.getElem?_eq_getElem hlt
    refine ⟨k, _, hk, hb, ?_⟩
    simpa only [tileOn?, hk, hb, ok_bind] using h
  have hzones {zones : List (Zone α)} (hsub : zones ⊆ g.zones) {brushes : Nat → Brush α}
      (hkeeps : g.KeepsPainters map zones brushes) (terrain : Grid) :
      (g.repainted brushes).paintZones map zones terrain = g.paintZones map zones terrain := by
    apply paintZones_repainted
    intro z hz hsize k hk b hb
    obtain ⟨x, y, hxy, hget⟩ := hmaps.exists_of_mem (hlies (hsub hz)) hk
    exact hkeeps z hz hsize x y hxy k b hget hb
  refine ⟨fun z hz x y hxy => ?_, fun terrain h z hz x y hxy => ?_, fun e h => ?_,
    fun zones hsub brushes hkeeps terrain => hzones hsub hkeeps terrain, fun brushes hkeeps => ?_⟩
  · obtain ⟨k, hk, hlt, -⟩ := hmaps.mem_zonePositions (hlies hz) hxy
    refine ⟨k, hk, hlt, fun painters hpainters => ?_⟩
    obtain ⟨j, b, painter, hj, -, -, hentry⟩ := hmaps.exists_painter (hlies hz) hpainters hxy
    obtain rfl : k = j := Except.ok.inj (hk.symm.trans hj)
    exact ⟨painter, hentry⟩
  · rw [paintTerrain_outcome hmaps] at h
    obtain ⟨blank, hnew, hpaint⟩ := bind_eq_ok.mp h
    obtain ⟨rfl, hblank⟩ := blank_new? hfill hnew
    obtain ⟨hagree, hcells⟩ := hmaps.paintZones_ok le_rfl htiles hfill hblank hpaint
    have hcell := hcells z hz x y hxy
    rw [TileAt, hagree.cellType] at hcell
    split_ifs at hcell ⊢ with hsize
    · exact hcell
    · obtain ⟨w, hw, hcell⟩ := hcell
      obtain ⟨k, b, hk, hb, happly⟩ := htile hz hxy hw
      exact ⟨k, b, w, hk, hb, happly, hcell⟩
  · rw [paintTerrain_outcome hmaps] at h
    have hnew : ∃ blank, Grid.new? g.world.width g.world.height fill cellType false = .ok blank := by
      have hwidth := hmaps.width
      have hheight := hmaps.height
      rw [Grid.new?, if_neg (by omega), hfill]
      exact ⟨_, rfl⟩
    obtain ⟨blank, hnew⟩ := hnew
    rw [hnew, ok_bind] at h
    obtain ⟨rfl, hblank⟩ := blank_new? hfill hnew
    obtain ⟨z, hz, hsize, x, y, hxy, he⟩ := hmaps.paintZones_error le_rfl htiles hfill hblank h
    exact ⟨z, hz, hsize, x, y, hxy, htile hz hxy he⟩
  · have hall := hzones (List.Subset.refl g.zones) hkeeps
    have hworld : (g.repainted brushes).world = g.world := rfl
    have hsame : (g.repainted brushes).zones = g.zones := rfl
    simp only [paintTerrain, hworld, hsame, hall]

/-- The zone of terrain size zero keeps the fill; a cell of moss and one of stone in the other zone
hold their tiles. -/
theorem terrain_follows_painters_sample : ∃ (g : Generator Float) (map terrain : Grid),
    (build Settings.tiled).outcome = .ok g ∧ g.biomeMap.outcome = .ok map ∧
      (g.paintTerrain map (.int 7) .uint8).outcome = .ok terrain ∧
      (∀ z ∈ g.zones, Scalar.same z.terrainSize 0.0 = true → ∀ x y,
        (Context.ofZone g.world z.rows).contains x y = true →
          terrain.cell? x y = some (.int 7)) ∧
      terrain.cell? 4 2 = some (.int 3) ∧ terrain.cell? 2 2 = some (.int 4) := by
  obtain ⟨g, map, hg, hplace, hzones, hmoss, hstone, -⟩ := exists_map_tiled
  have hmap : g.biomeMap.outcome = .ok map := biomeMap_outcome.mpr hplace
  have hfollows := followsRule_of_biomeMap hg hmap
  have hfill : CellType.uint8.cast? (.int 7) = .ok (.int 7) := by rfl
  obtain ⟨-, hcells, hfails, -⟩ := terrain_follows_painters hg hmap hfill
  cases hpaint : (g.paintTerrain map (.int 7) .uint8).outcome with
  | error e =>
    obtain ⟨z, -, -, x, y, -, k, b, -, hb, happly⟩ := hfails e hpaint
    rw [painted_tiled hg hb] at happly
    cases happly
  | ok terrain =>
    have hlow : ((⟨1, 7⟩, false) : Interval × Bool) ∈
        g.zones.map (fun z => (z.rows, Scalar.same z.terrainSize 0.0)) := by simp [hzones]
    obtain ⟨z, hz, hlow⟩ := List.mem_map.mp hlow
    obtain ⟨hrows, hsize⟩ := Prod.mk.inj hlow
    have hworld : g.world = ⟨8, 7, 1⟩ := (build_settings hg).1
    have htile {x y : Int} {k : Nat} (hxy : (0 ≤ x ∧ x < 8) ∧ 1 ≤ y ∧ y < 7)
        (hk : g.biomeAt? x y = .ok k) : terrain.cell? x y = some (.int (k + 3)) := by
      have hinside : (Context.ofZone g.world z.rows).contains x y = true := by
        rw [Window.contains_iff, hworld, hrows]
        exact hxy
      have hcell := hcells terrain hpaint z hz x y hinside
      rw [hsize, if_neg Bool.false_ne_true] at hcell
      obtain ⟨j, b, w, hj, hb, happly, hcell⟩ := hcell
      have hget := hfollows.tiled_get?_eq hg hxy.1 (by omega) hk
      obtain rfl : k = j := by simpa [BiomeMap.get?, BiomeMap.position, hget] using hj
      rw [painted_tiled hg hb] at happly
      rwa [Except.ok.inj happly]
    refine ⟨g, map, terrain, hg, hmap, hpaint, fun z hz hsize x y hxy => ?_,
      htile (by decide) hmoss, htile (by decide) hstone⟩
    simpa only [hsize, if_true] using hcells terrain hpaint z hz x y hxy

end Generator
end TileWorld
