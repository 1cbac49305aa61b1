import TileWorld.Proofs.World.Columns
import TileWorld.Proofs.World.Separation

/-! The zones of a generator and the climates of each zone, over doubles: none of them shares a cell
with another, so that the order of laying them has no say. -/
namespace TileWorld.Generator
variable {s : Settings Float} {g : Generator Float} {map : Grid}

/-- The rows of a zone end with the world, or there are as many as a double can count. -/
theorem build_rows_cut (h : (build s).outcome = .ok g) {z : Zone Float} (hz : z ∈ g.zones) :
    z.rows.stop = g.world.height ∨
      ∃ w : Float, Scalar.scale? g.world.height w = .ok z.rows.extent := by
  obtain ⟨zones, -, hstack⟩ := build_stack h
  rw [(build_settings h).1]
  exact Layout.stack?_cut hstack (List.mem_map_of_mem hz)

/-- A climate does not reach below rows that a double can count. -/
theorem area_stop_le {rows columns : Interval} {whole : Int} {w depth : Float} {area : Context}
    (hrows : 0 ≤ rows.extent) (hcut : Scalar.scale? whole w = .ok rows.extent)
    (hdepth : Scalar.IsShare depth)
    (harea : Context.ofClimate? g.world rows columns depth = .ok area) :
    area.rows.stop ≤ rows.stop := by
  obtain ⟨hcount, height, hheight, rfl⟩ := Context.ofClimate?_eq_ok.mp harea
  have hextent : (rows.count : Int) = rows.extent := Int.toNat_of_nonneg hrows
  have hsmall : rows.count ≤ 2 ^ 63 := by
    unfold Context.maxRows at hcount
    omega
  have hle := Double.scale?_scale?_le hsmall (hextent ▸ hcut) hdepth hheight
  unfold Interval.extent at hextent
  show rows.start + height ≤ rows.stop
  omega

/-- A climate that is laid does not reach below its zone: where counting the rows could be off, the
zone ends with the world. -/
theorem build_confined (hg : g.InBounds) (h : (build s).outcome = .ok g) {z : Zone Float}
    (hz : z ∈ g.zones) {e : Nat × Interval} (hfills : g.ClimateFills z e) : g.Confined z e := by
  intro c area hc harea x y hxy
  obtain ⟨-, hpos, -⟩ := (build_rows h).2.bounds (List.mem_map_of_mem hz)
  have hdepth : Scalar.IsShare c.depth :=
    (hg.climates c (by simpa using Array.mem_of_getElem? hc)).2.1
  have hstop : area.rows.stop ≤ z.rows.stop := by
    rcases build_rows_cut h hz with hbottom | ⟨w, hw⟩
    · -- What is left for the last zone can be more than a double counts, but the map was laid out.
      obtain ⟨c', hc', area', harea', hfill⟩ := hfills
      obtain rfl : c' = c := Option.some.inj (hc'.symm.trans hc)
      obtain rfl : area' = area := Except.ok.inj (harea'.symm.trans harea)
      obtain ⟨-, -, -, hholds⟩ := (hfill (Window.isEmpty_of_contains hxy)).1
      rw [hbottom]
      exact hholds
    · exact area_stop_le (Int.sub_nonneg_of_le hpos.le) hw hdepth harea
  obtain ⟨-, height, -, rfl⟩ := Context.ofClimate?_eq_ok.mp harea
  obtain ⟨-, htop, hy⟩ := (Window.contains_iff _ x y).mp hxy
  exact (Interval.contains_iff z.rows y).mpr ⟨htop, hy.trans_le hstop⟩

/-- No two zones of a generator share a row, and no two climates of a zone a column. -/
theorem build_separate (hg : g.InBounds) (h : (build s).outcome = .ok g)
    (hfills : ∀ z ∈ g.zones, g.ZoneFills z) : g.Separate g.zones where
  rows := (build_rows h).2.abuts.pairwise.imp Or.inl
  columns _ hz := (build_columns_pairwise hg h hz).imp Or.inl
  confined z hz e he := build_confined hg h hz ((hfills z hz).2 e he)

/-- Zones can be laid in any order, and the climates of each zone in any order over the columns that
they were given: the map is the same. -/
theorem placeBiomes_rearranged (hs : s.InBounds) (h : (build s).outcome = .ok g)
    (hmap : g.placeBiomes.outcome = .ok map) {zones' : List (Zone Float)}
    (hzones : Zone.Rearranged g.zones zones') :
    ({ g with zones := zones' } : Generator Float).placeBiomes.outcome = .ok map := by
  obtain ⟨-, hfills⟩ := exists_placeBiomes_iff_fills.mp ⟨map, hmap⟩
  exact (build_separate (build_inBounds hs h) h hfills).placeBiomes_eq hzones hmap

theorem placeBiomes_rearranged_sample : ∃ (g : Generator Float) (map : Grid),
    (build Settings.sample).outcome = .ok g ∧ g.placeBiomes.outcome = .ok map ∧
      ({ g with zones := (g.zones.map fun z =>
        { z with climates := z.climates.reverse }).reverse } : Generator Float).placeBiomes.outcome =
          .ok map := by
  obtain ⟨g, map, hg, hmap⟩ := exists_map_sample
  refine ⟨g, map, hg, hmap, placeBiomes_rearranged (by decide +kernel) hg hmap
    ⟨_, ?_, List.reverse_perm _⟩⟩
  rw [List.forall₂_map_right_iff, List.forall₂_same]
  exact fun z _ => ⟨_, List.reverse_perm _, rfl⟩

end TileWorld.Generator
