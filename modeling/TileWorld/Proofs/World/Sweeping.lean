import TileWorld.Proofs.World.Columns
import TileWorld.Proofs.World.Coverage
import TileWorld.Proofs.World.Inks

/-! When the map of a world can be laid out, over doubles. Nothing fails but for sweeps that leave
the world: columns are rounded, and those of a climate can pass the right edge. -/
namespace TileWorld

/-- What placing biomes asks of a description beyond the bounds of its fields. -/
structure Settings.Evaluates (s : Settings Float) : Prop where
  biomes : s.biomes.length ≤ 0x10000
  shapes : ∀ e ∈ s.climates, e.2.shape ≠ .unspecified
  transition : (s.transition.getD Generator.defaultTransition).Evaluates s.world
  selections : ∀ e ∈ s.biomes, e.2.selection.Evaluates s.world

namespace Generator

/-- What placing biomes asks of a generator. -/
structure Evaluates (g : Generator Float) : Prop where
  biomes : g.biomes.size ≤ 0x10000
  shapes : ∀ c ∈ g.climates.toList, c.shape ≠ .unspecified
  transition : g.transition.Evaluates g.world
  selections : ∀ b ∈ g.biomes.toList, b.selection.Evaluates g.world

theorem build_evaluates {s : Settings Float} {g : Generator Float} (hs : s.Evaluates)
    (h : (build s).outcome = .ok g) : g.Evaluates := by
  obtain ⟨hworld, -, -, htransition, -⟩ := build_settings h
  obtain ⟨roster, rows, hroster, -, zones, stream, rfl, -⟩ := build_ok h
  refine ⟨(build_biomes_size h).trans_le hs.biomes, fun c hc => ?_, ?_, fun b hb => ?_⟩
  · obtain ⟨e, he, -, hshape, -⟩ := forall₂_exists_mem hroster.climates hc
    rw [hshape]
    exact hs.shapes e ((Order.byName_perm s.climates).mem_iff.mp he)
  · rw [htransition, hworld]
    exact hs.transition
  · obtain ⟨e, he, -, -, -, hselection, -⟩ := forall₂_exists_mem hroster.biomes hb
    rw [hselection, hworld]
    exact hs.selections e ((Order.byName_perm s.biomes).mem_iff.mp he)

section Areas
variable {g : Generator Float} {area : Context} {outline : Option (Shape Float)}

theorem heightFits_of_layer? {k : Nat} {layer : Layer}
    (h : g.layer? area outline (.biome k) = .ok layer) : g.HeightFits := by
  simp only [layer?, biomeLayer?] at h
  split at h
  · simp at h
  · obtain ⟨height, hheight, -⟩ := bind_eq_ok.mp h
    exact ⟨height, hheight⟩

/-- An area with cells is laid exactly when it ends within the world, and its biomes can be told the
height of the world. -/
theorem fills_iff (hg : g.InBounds) (he : g.Evaluates) (hworld : area.world = g.world)
    (hnonempty : area.isEmpty = false) (hx : 0 ≤ area.columns.start) (hy : 0 ≤ area.rows.start)
    (houtline : ∀ shape ∈ outline, shape ≠ .unspecified) {p : Producer Float} {biomes : List Nat}
    (hp : p.InBounds g.biomes.size) (hbiomes : ∀ k ∈ biomes, k < g.biomes.size) :
    g.Fills area outline (inks p biomes) ↔ area.columns.stop ≤ g.world.width ∧
      area.rows.stop ≤ g.world.height ∧ (biomes ≠ [] → g.HeightFits) := by
  constructor
  · rintro ⟨⟨-, -, hxw, hyh⟩, hcovers⟩
    refine ⟨hxw, hyh, fun hne => ?_⟩
    obtain ⟨k, rest, rfl⟩ := List.exists_cons_of_ne_nil hne
    obtain ⟨layer, hlayer, -⟩ := hcovers (.biome k) (by simp [inks])
    exact heightFits_of_layer? hlayer
  · rintro ⟨hxw, hyh, hfits⟩
    have hwithin : area.toWindow.Within g.world := ⟨hnonempty, ⟨hx, hxw⟩, ⟨hy, hyh⟩⟩
    refine ⟨⟨hx, hy, hxw, hyh⟩, fun ink hink => ?_⟩
    rcases List.mem_cons.mp hink with rfl | hink
    · exact covers_producer hp he.biomes houtline he.transition hworld hwithin
    · obtain ⟨k, hk, rfl⟩ := List.mem_map.mp hink
      have hlt := hbiomes k hk
      have hb : g.biomes[k]? = some g.biomes[k] := Array.getElem?_eq_getElem hlt
      exact covers_biome hb (hlt.trans_le he.biomes) houtline hg.height
        (hfits (List.ne_nil_of_mem hk)) hg.heightTransition
        (he.selections _ (Array.getElem_mem_toList hlt)) hworld hwithin

end Areas

/-- What the sweep of a climate over its columns of a zone needs: it is made, and has no cells or
ends within the world. -/
def Sweeps (g : Generator Float) (z : Zone Float) (e : Nat × Interval) : Prop :=
  ∃ c, g.climates[e.1]? = some c ∧ ∃ area,
    Context.ofClimate? g.world z.rows e.2 c.depth = .ok area ∧
      (area.isEmpty = false → area.columns.stop ≤ g.world.width ∧
        area.rows.stop ≤ g.world.height ∧ (c.biomes ≠ [] → g.HeightFits))

section Sweeps
variable {g : Generator Float} {grid : Grid}

theorem climateFills_iff (hg : g.InBounds) (he : g.Evaluates) {z : Zone Float}
    (hrow : 0 ≤ z.rows.start) {e : Nat × Interval} (hcolumns : 0 ≤ e.2.start) :
    g.ClimateFills z e ↔ g.Sweeps z e := by
  refine exists_congr fun c => and_congr_right fun hc => exists_congr fun area =>
    and_congr_right fun harea => forall_congr' fun hnonempty => ?_
  have hmem : c ∈ g.climates.toList := by simpa using Array.mem_of_getElem? hc
  obtain ⟨-, -, hproducer, hbiomes⟩ := hg.climates c hmem
  obtain ⟨-, height, -, rfl⟩ := Context.ofClimate?_eq_ok.mp harea
  refine fills_iff hg he rfl hnonempty hcolumns hrow (fun shape hshape => ?_) hproducer hbiomes
  obtain rfl : c.shape = shape := by simpa using hshape
  exact he.shapes c hmem

/-- What the sweeps of a zone need. -/
def ZoneSweeps (g : Generator Float) (z : Zone Float) : Prop :=
  (z.biomes ≠ [] → g.HeightFits) ∧ ∀ e ∈ z.climates, g.Sweeps z e

theorem zoneFills_iff (hg : g.InBounds) (he : g.Evaluates) {z : Zone Float} (hz : z ∈ g.zones)
    (hrows : 0 ≤ z.rows.start ∧ z.rows.start < z.rows.stop ∧ z.rows.stop ≤ g.world.height)
    (hstart : ∀ e ∈ z.climates, 0 ≤ e.2.start) : g.ZoneFills z ↔ g.ZoneSweeps z := by
  obtain ⟨hproducer, hbiomes, -⟩ := hg.zones z hz
  obtain ⟨htop, hpos, hbottom⟩ := hrows
  have hnonempty : (Context.ofZone g.world z.rows).isEmpty = false := by
    rw [Bool.eq_false_iff, ne_eq, Window.isEmpty_iff]
    have hwidth := hg.width
    simp only [Context.ofZone]
    omega
  have houtline : ∀ shape ∈ (none : Option (Shape Float)), shape ≠ .unspecified := by simp
  have hfill := fills_iff hg he rfl hnonempty le_rfl htop houtline hproducer hbiomes
  refine and_congr (hfill.trans ⟨fun h => h.2.2, fun h => ⟨le_rfl, hbottom, h⟩⟩) ?_
  exact forall₂_congr fun e hmem => climateFills_iff hg he htop (hstart e hmem)

theorem exists_layZones_iff (hg : g.InBounds) (he : g.Evaluates) (hgrid : g.Canvas grid)
    {zones : List (Zone Float)} (hzones : ∀ z ∈ zones, z ∈ g.zones)
    (hrows : ∀ z ∈ zones, 0 ≤ z.rows.start ∧ z.rows.start < z.rows.stop ∧
      z.rows.stop ≤ g.world.height)
    (hstart : ∀ z ∈ zones, ∀ e ∈ z.climates, 0 ≤ e.2.start) :
    (∃ grid', (g.layZones zones grid).outcome = .ok grid') ↔ ∀ z ∈ zones, g.ZoneSweeps z := by
  rw [exists_layZones_iff_fills hgrid]
  exact forall₂_congr fun z hz => zoneFills_iff hg he (hzones z hz) (hrows z hz) (hstart z hz)

end Sweeps

/-- What all sweeps of a generator need. -/
def Sweepable (g : Generator Float) : Prop := ∀ z ∈ g.zones, g.ZoneSweeps z

/-- No climate with cells passes the right edge of the world. -/
def ColumnsFit (g : Generator Float) : Prop :=
  ∀ z ∈ g.zones, ∀ e ∈ z.climates, ∀ c area, g.climates[e.1]? = some c →
    Context.ofClimate? g.world z.rows e.2 c.depth = .ok area → area.isEmpty = false →
      e.2.stop ≤ g.world.width

theorem heightFits_of_le {g : Generator Float} (hheight : 0 < g.world.height)
    (hsmall : g.world.height ≤ 2 ^ 53) : g.HeightFits := by
  obtain ⟨n, hn⟩ := Int.eq_ofNat_of_zero_le hheight.le
  have hle : n ≤ 2 ^ 63 := by omega
  refine ⟨Float.ofNat n, ?_⟩
  rw [hn]
  exact Double.ofInt?_eq_ok.mpr ⟨Double.nearest_nat_lt hle, rfl⟩

/-- As long as its height is counted exactly, only the right edge of a world can be passed. -/
theorem sweepable_iff_columnsFit {g : Generator Float} (hg : g.InBounds)
    (hrows : ∀ z ∈ g.zones, 0 ≤ z.rows.start ∧ z.rows.start < z.rows.stop ∧
      z.rows.stop ≤ g.world.height)
    (hsmall : g.world.height ≤ 2 ^ 53) : g.Sweepable ↔ g.ColumnsFit := by
  have hfits := heightFits_of_le hg.height hsmall
  constructor
  · intro h z hz e he c area hc harea hnonempty
    obtain ⟨c', hc', area', harea', hends⟩ := (h z hz).2 e he
    obtain rfl : c' = c := Option.some.inj (hc'.symm.trans hc)
    obtain rfl : area' = area := Except.ok.inj (harea'.symm.trans harea)
    obtain ⟨-, height, -, rfl⟩ := Context.ofClimate?_eq_ok.mp harea
    exact (hends hnonempty).1
  · intro h z hz
    refine ⟨fun _ => hfits, fun e he => ?_⟩
    obtain ⟨htop, hpos, hbottom⟩ := hrows z hz
    have hlt := (hg.zones z hz).2.2 e he
    have hc : g.climates[e.1]? = some g.climates[e.1] := Array.getElem?_eq_getElem hlt
    have hdepth := (hg.climates _ (Array.getElem_mem_toList hlt)).2.1
    have hcount : (z.rows.count : Int) = z.rows.stop - z.rows.start := by
      unfold Interval.count Interval.extent
      omega
    obtain ⟨n, hn, -, hle⟩ := Double.exists_scale?_share (n := z.rows.count) (by omega) (by omega)
      hdepth
    have hle := hle (by omega)
    have harea : Context.ofClimate? g.world z.rows e.2 g.climates[e.1].depth =
        .ok ⟨⟨e.2, ⟨z.rows.start, z.rows.start + n⟩⟩, g.world⟩ :=
      Context.ofClimate?_eq_ok.mpr ⟨by unfold Context.maxRows; omega, n, hn, rfl⟩
    refine ⟨_, hc, _, harea, fun hnonempty => ⟨h z hz e he _ _ hc harea hnonempty, ?_, fun _ => hfits⟩⟩
    show z.rows.start + n ≤ g.world.height
    omega

theorem exists_canvas {g : Generator Float} (hg : g.InBounds) :
    ∃ grid, Grid.new? g.world.width g.world.height (.int 0) .uint16 false = .ok grid :=
  exists_canvas_iff.mpr ⟨hg.width.le, hg.height.le⟩

/-- The map of a generator can be laid out exactly when all its sweeps end within the world. While
the height of the world is counted exactly, that is to say that no climate with cells passes the
right edge: positions of biomes are in range, nothing is divided by zero, and no sweep leaves the
world on another side. -/
theorem exists_placeBiomes_iff {s : Settings Float} {g : Generator Float} (hs : s.InBounds)
    (he : s.Evaluates) (h : (build s).outcome = .ok g) :
    ((∃ map, g.placeBiomes.outcome = .ok map) ↔ g.Sweepable) ∧
      (s.world.height ≤ 2 ^ 53 →
        ((∃ map, g.placeBiomes.outcome = .ok map) ↔ g.ColumnsFit)) := by
  have hg := build_inBounds hs h
  have hrows : ∀ z ∈ g.zones, 0 ≤ z.rows.start ∧ z.rows.start < z.rows.stop ∧
      z.rows.stop ≤ g.world.height := by
    intro z hz
    rw [(build_settings h).1]
    exact (build_rows h).2.bounds (List.mem_map_of_mem hz)
  obtain ⟨grid, hgrid⟩ := exists_canvas hg
  obtain ⟨htype, hwidth, hheight⟩ := Grid.new?_ok hgrid
  have hsweeps : (∃ map, g.placeBiomes.outcome = .ok map) ↔ g.Sweepable := by
    rw [Sweepable, ← exists_layZones_iff hg (build_evaluates he h) ⟨htype, hwidth, hheight⟩
      (fun z hz => hz) hrows fun z hz e he => build_start_nonneg hg h hz he]
    refine exists_congr fun map => placeBiomes_outcome.trans ?_
    simp only [hgrid, Except.ok.injEq, exists_eq_left']
  refine ⟨hsweeps, fun hsmall => ?_⟩
  rw [hsweeps, sweepable_iff_columnsFit hg hrows]
  rw [(build_settings h).1]
  exact hsmall

end Generator

theorem Settings.evaluates_sampleOf (world : World) (spawnSize desert marsh tundra : Float) :
    (sampleOf world spawnSize desert marsh tundra).Evaluates := by
  refine ⟨by simp [sampleOf], fun e he => ?_, ?_, fun e he => ?_⟩
  · simp only [sampleOf, List.mem_cons, List.not_mem_nil, or_false] at he
    rcases he with rfl | rfl | rfl <;> simp
  · exact Sampler.evaluates_const 0.5 _
  · simp only [sampleOf, List.mem_cons, List.not_mem_nil, or_false] at he
    rcases he with rfl | rfl
    · exact Sampler.evaluates_const 0.5 _
    · exact Sampler.evaluates_const 0.25 _

/-- A sample whose widths are the least there are. Their shares are rounded up so far that the middle
climate of three ends right of the world. -/
def Settings.slivers : Settings Float := sampleOf ⟨20, 4, 1⟩ 0.4 5e-324 5e-324 5e-324

theorem Settings.slivers_named : slivers.NamedAsSample := ⟨rfl, rfl, rfl⟩

namespace Generator

theorem exists_placeBiomes_iff_sample :
    (∃ g : Generator Float, (build Settings.sample).outcome = .ok g ∧
      (∃ map, g.placeBiomes.outcome = .ok map) ∧ g.ColumnsFit) ∧
    ∃ g : Generator Float, (build Settings.slivers).outcome = .ok g ∧
      (¬∃ map, g.placeBiomes.outcome = .ok map) ∧ ¬g.ColumnsFit := by
  constructor
  · obtain ⟨g, map, hg, hmap⟩ := exists_map_sample
    have hiff := exists_placeBiomes_iff (by decide +kernel) (Settings.evaluates_sampleOf _ _ _ _ _) hg
    exact ⟨g, hg, ⟨map, hmap⟩, (hiff.2 (by decide)).mp ⟨map, hmap⟩⟩
  · obtain ⟨g, hg, hfails⟩ := exists_build_of_namedAsSample Settings.slivers_named (by decide)
      (fun g => !g.placeBiomes.outcome.isOk) (by decide +kernel)
    have hnone : ¬∃ map, g.placeBiomes.outcome = .ok map := by
      rw [← isOk_iff]
      simpa using hfails
    have hiff := exists_placeBiomes_iff (by decide +kernel) (Settings.evaluates_sampleOf _ _ _ _ _) hg
    exact ⟨g, hg, hnone, fun hfit => hnone ((hiff.2 (by decide)).mpr hfit)⟩

end Generator
end TileWorld
