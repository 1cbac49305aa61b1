import TileWorld.Proofs.Grid.Writes
import TileWorld.Proofs.World.Coverage

/-! Zones with rows of their own and climates with columns of their own. What is laid on one of them is
not seen by another, so that they can be laid in any order. -/
namespace TileWorld
variable {α : Type}

/-- A zone whose climates are to be laid in another order. -/
def Zone.Reordered (z z' : Zone α) : Prop :=
  ∃ climates, climates.Perm z.climates ∧ z' = { z with climates }

/-- Zones to be laid in another order, and the climates of each of them in another order. -/
def Zone.Rearranged (zones zones' : List (Zone α)) : Prop :=
  ∃ reordered, List.Forall₂ Zone.Reordered zones reordered ∧ zones'.Perm reordered

namespace Zone.Rearranged
variable {zones zones' : List (Zone α)}

theorem exists_mem_before (h : Rearranged zones zones') {z' : Zone α} (hz' : z' ∈ zones') :
    ∃ z ∈ zones, z.Reordered z' := by
  obtain ⟨reordered, hreordered, hperm⟩ := h
  exact forall₂_exists_mem hreordered (hperm.mem_iff.mp hz')

theorem exists_mem_after (h : Rearranged zones zones') {z : Zone α} (hz : z ∈ zones) :
    ∃ z' ∈ zones', z.Reordered z' := by
  obtain ⟨reordered, hreordered, hperm⟩ := h
  obtain ⟨z', hz', hflip⟩ := forall₂_exists_mem hreordered.flip hz
  exact ⟨z', hperm.mem_iff.mpr hz', hflip⟩

theorem rows_perm (h : Rearranged zones zones') :
    (zones'.map (·.rows)).Perm (zones.map (·.rows)) := by
  obtain ⟨reordered, hreordered, hperm⟩ := h
  have hrows : reordered.map (·.rows) = zones.map (·.rows) :=
    map_eq_map_of_forall₂ hreordered fun z z' hz => by
      obtain ⟨climates, -, rfl⟩ := hz
      rfl
  rw [← hrows]
  exact hperm.map (·.rows)

end Zone.Rearranged

namespace Generator
variable [Scalar α] [NoiseSource α] [SquareRoot α] {g : Generator α} {z z' : Zone α}
  {grid grid' : Grid}

section Climates
variable {e e' : Nat × Interval} {x y : Int}

omit [NoiseSource α] [SquareRoot α] in
theorem area_contains {rows columns : Interval} {depth : α} {area : Context}
    (h : Context.ofClimate? g.world rows columns depth = .ok area)
    (hx : columns.contains x = false) : area.contains x y = false := by
  obtain ⟨-, height, -, rfl⟩ := Context.ofClimate?_eq_ok.mp h
  exact (congrArg (· && _) hx).trans (Bool.false_and _)

/-- A climate keeps what is below it outside of its columns. -/
theorem ClimateFills.climateOver?_outside (h : g.ClimateFills z e) (hx : e.2.contains x = false)
    (below : Nat) : g.climateOver? z x y below e = .ok below := by
  obtain ⟨c, hc, area, harea, -⟩ := h
  simp [climateOver?, hc, harea, area_contains harea hx]

/-- Of two climates with columns apart, either can be laid first. -/
theorem ClimateFills.climateOver?_comm (h : g.ClimateFills z e) (h' : g.ClimateFills z e')
    (hapart : e.2.Apart e'.2) (below : Nat) :
    (g.climateOver? z x y below e >>= fun k => g.climateOver? z x y k e') =
      (g.climateOver? z x y below e' >>= fun k => g.climateOver? z x y k e) := by
  have hbind (r : Except Fault Nat) : (r >>= fun k => .ok k) = r := by cases r <;> rfl
  -- One of the two keeps what it finds at this cell.
  by_cases hx : e.2.contains x = true
  · have hkeeps := h'.climateOver?_outside (y := y) (hapart.contains hx)
    simp only [hkeeps, ok_bind, hbind]
  · have hkeeps := h.climateOver?_outside (y := y) (Bool.eq_false_iff.mpr hx)
    simp only [hkeeps, ok_bind, hbind]

/-- Climates with columns apart give a zone the same cells in any order. -/
theorem biomeOn?_perm {climates : List (Nat × Interval)} (hperm : climates.Perm z.climates)
    (hfills : ∀ e ∈ z.climates, g.ClimateFills z e)
    (hapart : z.climates.Pairwise fun e e' => e.2.Apart e'.2) :
    g.biomeOn? { z with climates } x y = g.biomeOn? z x y := by
  have hsymm : Std.Symm fun e e' : Nat × Interval => e.2.Apart e'.2 := ⟨fun _ _ h => h.symm⟩
  have hcomm : ∀ e ∈ z.climates, ∀ e' ∈ z.climates, ∀ k,
      (g.climateOver? z x y k e >>= fun k => g.climateOver? z x y k e') =
        (g.climateOver? z x y k e' >>= fun k => g.climateOver? z x y k e) := by
    intro e he e' he' k
    by_cases heq : e = e'
    · rw [heq]
    · exact (hfills e he).climateOver?_comm (hfills e' he') (hapart.forall he he' heq) k
  unfold biomeOn?
  exact bind_congr fun below => (foldlM_perm hperm.symm hcomm below).symm

end Climates

/-- A climate that stays within the rows of its zone. -/
def Confined (g : Generator α) (z : Zone α) (e : Nat × Interval) : Prop :=
  ∀ c area, g.climates[e.1]? = some c →
    Context.ofClimate? g.world z.rows e.2 c.depth = .ok area →
      ∀ x y, area.contains x y = true → z.rows.contains y = true

/-- Zones that share no rows, with climates that share no columns and keep to their zone. -/
structure Separate (g : Generator α) (zones : List (Zone α)) : Prop where
  rows : (zones.map (·.rows)).Pairwise Interval.Apart
  columns : ∀ z ∈ zones, z.climates.Pairwise fun e e' => e.2.Apart e'.2
  confined : ∀ z ∈ zones, ∀ e ∈ z.climates, g.Confined z e

section Writes

theorem lay?_writes {area : Context} {outline : Option (Shape α)} {inks : List (Ink α)}
    (h : g.lay? area outline inks grid = .ok grid') (hwrites : grid.writes = none) :
    grid'.writes = none := by
  induction inks generalizing grid with
  | nil =>
    obtain rfl : grid = grid' := by simpa [lay?] using h
    exact hwrites
  | cons ink rest ih =>
    obtain ⟨layer, -, next, hnext, hrest⟩ := lay?_cons.mp h
    exact ih hrest (Context.update?_writes hnext hwrites)

theorem layClimates_writes {climates : List (Nat × Interval)}
    (h : (g.layClimates z climates grid).outcome = .ok grid') (hwrites : grid.writes = none) :
    grid'.writes = none := by
  induction climates generalizing grid with
  | nil =>
    obtain rfl : grid = grid' := by simpa [layClimates] using h
    exact hwrites
  | cons e rest ih =>
    obtain ⟨c, -, area, -, next, hnext, hrest⟩ := layClimates_cons.mp h
    refine ih hrest ?_
    split_ifs at hnext
    · exact Except.ok.inj hnext ▸ hwrites
    · exact lay?_writes hnext hwrites

theorem layZones_writes {zones : List (Zone α)} (h : (g.layZones zones grid).outcome = .ok grid')
    (hwrites : grid.writes = none) : grid'.writes = none := by
  induction zones generalizing grid with
  | nil =>
    obtain rfl : grid = grid' := by simpa [layZones] using h
    exact hwrites
  | cons z rest ih =>
    obtain ⟨filled, hfill, covered, hcover, hrest⟩ := layZones_cons.mp h
    exact ih hrest (layClimates_writes hcover (lay?_writes hfill hwrites))

end Writes

section Zones
variable {zones zones' : List (Zone α)}

theorem layClimates_agreeOff {climates : List (Nat × Interval)} (htype : grid.cellType = .uint16)
    (hconfined : ∀ e ∈ climates, g.Confined z e)
    (h : (g.layClimates z climates grid).outcome = .ok grid') :
    grid.AgreeOff (fun _ y => z.rows.contains y = true) grid' := by
  induction climates generalizing grid with
  | nil =>
    obtain rfl : grid = grid' := by simpa [layClimates] using h
    exact Grid.AgreeOff.refl _ grid
  | cons e rest ih =>
    rw [List.forall_mem_cons] at hconfined
    obtain ⟨c, hc, area, harea, next, hnext, hrest⟩ := layClimates_cons.mp h
    have hagree : grid.AgreeOff (fun _ y => z.rows.contains y = true) next := by
      split_ifs at hnext
      · exact Except.ok.inj hnext ▸ Grid.AgreeOff.refl _ grid
      · exact (lay?_ok htype hnext).1.mono (hconfined.1 c area hc harea)
    exact hagree.trans (ih (hagree.cellType.trans htype) hconfined.2 hrest)

theorem layZone_agreeOff {filled : Grid} (hconfined : ∀ e ∈ z.climates, g.Confined z e)
    (htype : grid.cellType = .uint16)
    (hfill : g.lay? (Context.ofZone g.world z.rows) none (inks z.producer z.biomes) grid =
      .ok filled)
    (h : (g.layClimates z z.climates filled).outcome = .ok grid') :
    grid.AgreeOff (fun _ y => z.rows.contains y = true) grid' := by
  have hagree : grid.AgreeOff (fun _ y => z.rows.contains y = true) filled :=
    (lay?_ok htype hfill).1.mono fun x y hxy => (Bool.and_eq_true_iff.mp hxy).2
  exact hagree.trans (layClimates_agreeOff (hagree.cellType.trans htype) hconfined h)

/-- Separate zones give their cells the rule's positions in any order, and change no other cell. -/
theorem Separate.layZones_ok (hzones : g.Separate zones) (htype : grid.cellType = .uint16)
    (h : (g.layZones zones grid).outcome = .ok grid') :
    grid.AgreeOff (fun _ y => ∃ z ∈ zones, z.rows.contains y = true) grid' ∧
      ∀ z ∈ zones, ∀ x y, 0 ≤ x → x < g.world.width → z.rows.contains y = true →
        ∃ k : Nat, g.biomeOn? z x y = .ok k ∧ grid'.cell? x y = some (.int k) := by
  induction zones generalizing grid with
  | nil =>
    obtain rfl : grid = grid' := by simpa [layZones] using h
    exact ⟨Grid.AgreeOff.refl _ grid, by simp⟩
  | cons z rest ih =>
    obtain ⟨hrows, hcolumns, hconfined⟩ := hzones
    rw [List.map_cons, List.pairwise_cons, List.forall_mem_map] at hrows
    rw [List.forall_mem_cons] at hcolumns hconfined
    obtain ⟨filled, hfill, covered, hcover, hrest⟩ := layZones_cons.mp h
    have hagree := layZone_agreeOff hconfined.1 htype hfill hcover
    obtain ⟨-, hcells⟩ := layZone_ok htype hfill hcover
    obtain ⟨hagree', hcells'⟩ := ih ⟨hrows.2, hcolumns.2, hconfined.2⟩
      (hagree.cellType.trans htype) hrest
    constructor
    · refine (hagree.mono fun x y hy => ⟨z, List.mem_cons_self, hy⟩).trans
        (hagree'.mono fun x y hy => ?_)
      obtain ⟨z', hz', hy⟩ := hy
      exact ⟨z', List.mem_cons_of_mem z hz', hy⟩
    · rw [List.forall_mem_cons]
      refine ⟨fun x y hx hxw hy => ?_, hcells'⟩
      obtain ⟨k, hk, hcell⟩ := hcells x y hx hxw hy
      -- No zone that is laid after this one has a row of it.
      have hlater : ¬∃ z' ∈ rest, z'.rows.contains y = true := by
        rintro ⟨z', hz', hy'⟩
        rw [(hrows.1 z' hz').contains hy] at hy'
        exact Bool.noConfusion hy'
      exact ⟨k, hk, (hagree'.cell? x y hlater).trans hcell⟩

omit [NoiseSource α] [SquareRoot α] in
theorem Separate.rearranged (h : g.Separate zones) (hzones : Zone.Rearranged zones zones') :
    g.Separate zones' where
  rows := (hzones.rows_perm.pairwise_iff fun h => h.symm).mpr h.rows
  columns z' hz' := by
    obtain ⟨z, hz, climates, hperm, rfl⟩ := hzones.exists_mem_before hz'
    exact (hperm.pairwise_iff fun h => h.symm).mpr (h.columns z hz)
  confined z' hz' := by
    obtain ⟨z, hz, climates, hperm, rfl⟩ := hzones.exists_mem_before hz'
    exact fun e he => h.confined z hz e (hperm.mem_iff.mp he)

theorem ZoneFills.reordered (h : g.ZoneFills z) (hz : z.Reordered z') : g.ZoneFills z' := by
  obtain ⟨climates, hperm, rfl⟩ := hz
  exact ⟨h.1, fun e he => h.2 e (hperm.mem_iff.mp he)⟩

end Zones

section Maps
variable {map map' : Grid} {zones' : List (Zone α)}

/-- Maps laid in different orders hold the same at every cell. -/
theorem Separate.agree (h : g.Separate g.zones) (hfills : ∀ z ∈ g.zones, g.ZoneFills z)
    (hzones : Zone.Rearranged g.zones zones') (hgrid : g.Canvas grid)
    (hlay : (g.layZones g.zones grid).outcome = .ok map)
    (hlay' : (layZones { g with zones := zones' } zones' grid).outcome = .ok map') :
    map.AgreeOff (fun _ _ => False) map' := by
  have h' := h.rearranged hzones
  obtain ⟨hagree, hcells⟩ := h.layZones_ok hgrid.cellType hlay
  obtain ⟨hagree', hcells'⟩ := Separate.layZones_ok (g := { g with zones := zones' })
    ⟨h'.rows, h'.columns, h'.confined⟩ hgrid.cellType hlay'
  refine ⟨hagree'.cellType.trans hagree.cellType.symm, hagree'.width.trans hagree.width.symm,
    hagree'.height.trans hagree.height.symm, fun x y _ => ?_⟩
  by_cases hx : 0 ≤ x ∧ x < g.world.width
  · by_cases hy : ∃ z ∈ g.zones, z.rows.contains y = true
    · obtain ⟨z, hz, hy⟩ := hy
      obtain ⟨z', hz', climates, hperm, rfl⟩ := hzones.exists_mem_after hz
      obtain ⟨k, hk, hcell⟩ := hcells z hz x y hx.1 hx.2 hy
      obtain ⟨k', hk', hcell'⟩ := hcells' _ hz' x y hx.1 hx.2 hy
      have hsame : g.biomeOn? { z with climates } x y = g.biomeOn? z x y :=
        biomeOn?_perm hperm (hfills z hz).2 (h.columns z hz)
      obtain rfl : k' = k := Except.ok.inj (hk'.symm.trans (hsame.trans hk))
      rw [hcell, hcell']
    · have hy' : ¬∃ z ∈ zones', z.rows.contains y = true := by
        rintro ⟨z', hz', hcontains⟩
        obtain ⟨z, hz, climates, -, rfl⟩ := hzones.exists_mem_before hz'
        exact hy ⟨z, hz, hcontains⟩
      rw [hagree.cell? x y hy, hagree'.cell? x y hy']
  · have hnone : map.cell? x y = none := by
      rw [Grid.cell?_eq_none, hagree.width, hgrid.width]
      tauto
    have hnone' : map'.cell? x y = none := by
      rw [Grid.cell?_eq_none, hagree'.width, hgrid.width]
      tauto
    rw [hnone, hnone']

/-- Separate zones and climates can be laid in any order: the map is the same. -/
theorem Separate.placeBiomes_eq (h : g.Separate g.zones) (hzones : Zone.Rearranged g.zones zones')
    (hmap : g.placeBiomes.outcome = .ok map) :
    ({ g with zones := zones' } : Generator α).placeBiomes.outcome = .ok map := by
  obtain ⟨hsize, hfills⟩ := exists_placeBiomes_iff_fills.mp ⟨map, hmap⟩
  have hfills' : ∀ z' ∈ zones', g.ZoneFills z' := by
    intro z' hz'
    obtain ⟨z, hz, hreordered⟩ := hzones.exists_mem_before hz'
    exact (hfills z hz).reordered hreordered
  obtain ⟨map', hmap'⟩ : ∃ map',
      ({ g with zones := zones' } : Generator α).placeBiomes.outcome = .ok map' :=
    exists_placeBiomes_iff_fills.mpr ⟨hsize, hfills'⟩
  obtain ⟨grid, hgrid, hlay⟩ := placeBiomes_outcome.mp hmap
  obtain ⟨grid', hgrid', hlay'⟩ := placeBiomes_outcome.mp hmap'
  obtain rfl : grid' = grid := Except.ok.inj (hgrid'.symm.trans hgrid)
  have hagree := h.agree hfills hzones (Canvas.new? hgrid) hlay hlay'
  have hwrites := Grid.new?_writes hgrid
  rw [hmap', hagree.eq (layZones_writes hlay hwrites) (layZones_writes hlay' hwrites)]

end Maps
end Generator
end TileWorld
