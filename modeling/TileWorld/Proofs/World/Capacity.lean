import TileWorld.Proofs.World.Coverage
import TileWorld.Proofs.World.Inks
import TileWorld.Proofs.World.Positions
import TileWorld.Proofs.World.Verdict

/-! How many biomes a map can tell apart. Ids are positions in a list that the constructor does not
bound, and the cells of a map are words of 16 bits: an id is kept exactly when it is such a word. -/
namespace TileWorld

theorem CellType.cast?_overflow {k : Nat} (h : BiomeMap.positions ≤ k) :
    uint16.cast? (.int k) = .error .overflow := by
  unfold BiomeMap.positions at h
  rw [cast?_int rfl, if_neg (by omega)]

theorem Context.contains_ofWorld_iff {world : World} {x y : Int} :
    (ofWorld world).contains x y = true ↔
      (0 ≤ x ∧ x < world.width) ∧ 0 ≤ y ∧ y < world.height :=
  Window.contains_iff _ x y

namespace Generator
variable {α : Type}

/-- An ink that the map of a generator is laid with, over its area and inside its outline. -/
inductive Lays (g : Generator α) [Scalar α] : Context → Option (Shape α) → Ink α → Prop
  | zone {z : Zone α} {ink : Ink α} (hz : z ∈ g.zones) (hink : ink ∈ inks z.producer z.biomes) :
      Lays g (Context.ofZone g.world z.rows) none ink
  | climate {z : Zone α} {e : Nat × Interval} {c : Climate α} {area : Context} {ink : Ink α}
      (hz : z ∈ g.zones) (he : e ∈ z.climates) (hc : g.climates[e.1]? = some c)
      (harea : Context.ofClimate? g.world z.rows e.2 c.depth = .ok area)
      (hink : ink ∈ inks c.producer c.biomes) : Lays g area (some c.shape) ink

variable [Scalar α] [NoiseSource α] [SquareRoot α]

/-- An id that a layer of the map writes at a cell of the world. -/
structure Writes (g : Generator α) (layer : Layer) (x y : Int) (k : Nat) : Prop where
  laid : ∃ area outline ink, g.Lays area outline ink ∧ g.layer? area outline ink = .ok layer ∧
    area.contains x y = true
  inside : (Context.ofWorld g.world).contains x y = true
  writes : layer x y = .ok (some k)

/-- Every id that is written is stored without a fault and read back as it was, whatever the map
held before. -/
def KeepsIds (g : Generator α) : Prop :=
  ∀ layer x y k, g.Writes layer x y k → ∀ grid, g.Canvas grid →
    ∃ grid', Grid.update (stroke? layer) [(x, y)] grid = (grid', none) ∧
      BiomeMap.get? grid' x y = .ok k

section Step
variable {layer : Layer} {grid : Grid} {x y : Int} {v : Value} {k : Nat}

theorem redraw?_id (htype : grid.cellType = .uint16) (hcell : grid.cell? x y = some v)
    (hk : layer x y = .ok (some k)) :
    grid.redraw? (stroke? layer) x y = CellType.uint16.cast? (.int k) := by
  rw [redraw?_stroke? htype hcell, hk, ok_bind]

/-- Where a layer can be evaluated, no other fault is left. -/
theorem redraw?_layer_overflow (htype : grid.cellType = .uint16) (hcell : grid.cell? x y = some v)
    {o : Option Nat} (ho : layer x y = .ok o) {e : Fault}
    (he : grid.redraw? (stroke? layer) x y = .error e) : e = .overflow := by
  cases o with
  | none =>
    rw [redraw?_stroke? htype hcell, ho] at he
    cases he
  | some k =>
    rw [redraw?_id htype hcell ho] at he
    by_cases hfits : k < BiomeMap.positions
    · rw [CellType.cast?_position.mpr ⟨hfits, rfl⟩] at he
      cases he
    · rw [CellType.cast?_overflow (Nat.le_of_not_lt hfits)] at he
      exact (Except.error.inj he).symm

/-- The write of an id that is a word changes one cell, from which it is read back. -/
theorem update_id_kept (htype : grid.cellType = .uint16) (hcell : grid.cell? x y = some v)
    (hk : layer x y = .ok (some k)) (hfits : k < BiomeMap.positions) :
    ∃ grid', Grid.update (stroke? layer) [(x, y)] grid = (grid', none) ∧
      grid.AgreeOff (fun a b => a = x ∧ b = y) grid' ∧ BiomeMap.get? grid' x y = .ok k := by
  have hdraw : grid.redraw? (stroke? layer) x y = .ok (.int k) := by
    rw [redraw?_id htype hcell hk]
    exact CellType.cast?_position.mpr ⟨hfits, rfl⟩
  obtain ⟨grid', hrun, hagree, hstored⟩ := Grid.update_cons_ok hdraw []
  refine ⟨grid', hrun, hagree, ?_⟩
  rw [BiomeMap.get?, Grid.get?_eq_ok.mpr hstored]
  rfl

/-- The write of any other id is a fault, and leaves the grid as it is. -/
theorem update_id_lost (htype : grid.cellType = .uint16) (hcell : grid.cell? x y = some v)
    (hk : layer x y = .ok (some k)) (hbig : BiomeMap.positions ≤ k) :
    Grid.update (stroke? layer) [(x, y)] grid = (grid, some .overflow) := by
  refine Grid.update_cons_error ?_ []
  rw [redraw?_id htype hcell hk]
  exact CellType.cast?_overflow hbig

end Step

section Sweep
variable {layer : Layer} {area : Context} {grid : Grid}

/-- A sweep fails on an id that is no word, and on nothing else if its layer can be evaluated. -/
theorem update?_layer_overflow (htype : grid.cellType = .uint16) (hholds : grid.Holds area.toWindow)
    (hlayer : ∀ x y, area.contains x y = true → ∃ o, layer x y = .ok o) {x y : Int} {k : Nat}
    (hxy : area.contains x y = true) (hk : layer x y = .ok (some k))
    (hbig : BiomeMap.positions ≤ k) : area.update? (stroke? layer) grid = .error .overflow := by
  have hcell (x y : Int) (hxy : area.contains x y = true) : ∃ v, grid.cell? x y = some v :=
    Grid.exists_cell?.mpr ((Grid.window_contains grid x y).mp (hholds.window_contains hxy))
  cases hrun : area.update? (stroke? layer) grid with
  | ok grid' =>
    obtain ⟨v, hv⟩ := hcell x y hxy
    obtain ⟨w, hw, -⟩ := (Context.update?_ok hrun).2.2 x y hxy
    rw [redraw?_id htype hv hk, CellType.cast?_overflow hbig] at hw
    cases hw
  | error e =>
    obtain ⟨a, b, hab, he⟩ := Context.update?_error hholds hrun
    obtain ⟨v, hv⟩ := hcell a b hab
    obtain ⟨o, ho⟩ := hlayer a b hab
    exact congrArg Except.error (redraw?_layer_overflow htype hv ho he)

end Sweep

section Ids
variable {g : Generator α} {layer : Layer} {x y : Int} {k : Nat}

omit [NoiseSource α] [SquareRoot α] in
theorem Lays.names {s : Settings α} (hg : (build s).outcome = .ok g) {area : Context}
    {outline : Option (Shape α)} {ink : Ink α} (h : g.Lays area outline ink) : g.Names ink := by
  obtain ⟨hzones, hclimates⟩ := build_below hg
  have hinks {p : Producer α} {biomes : List Nat} (hp : p.Below g.biomes.size)
      (hink : ink ∈ inks p biomes) : g.Names ink := by
    rcases List.mem_cons.mp hink with rfl | hink
    · exact hp
    · obtain ⟨b, -, rfl⟩ := List.mem_map.mp hink
      trivial
  cases h with
  | zone hz hink => exact hinks (hzones _ hz) hink
  | climate hz he hc harea hink =>
    exact hinks (hclimates _ (Array.mem_toList_iff.mpr (Array.mem_of_getElem? hc))) hink

/-- What is written is the id of a biome. -/
theorem Writes.lt_biomes (h : g.Writes layer x y k) {s : Settings α}
    (hg : (build s).outcome = .ok g) : k < s.biomes.length := by
  obtain ⟨area, outline, ink, hlays, hlayer, -⟩ := h.laid
  rw [← build_biomes_size hg]
  exact (hlays.names hg).layer_lt hlayer h.writes

omit [Scalar α] [NoiseSource α] [SquareRoot α] in
theorem Canvas.exists_cell? {grid : Grid} (h : g.Canvas grid)
    (hxy : (Context.ofWorld g.world).contains x y = true) : ∃ v, grid.cell? x y = some v := by
  have hinside := Context.contains_ofWorld_iff.mp hxy
  have hwidth := h.width
  have hheight := h.height
  exact Grid.exists_cell?.mpr (by omega)

omit [Scalar α] [NoiseSource α] [SquareRoot α] in
theorem exists_canvas_of_contains (hxy : (Context.ofWorld g.world).contains x y = true) :
    ∃ grid, g.Canvas grid := by
  have hinside := Context.contains_ofWorld_iff.mp hxy
  obtain ⟨grid, hgrid⟩ := exists_canvas_iff.mpr
    (show 0 ≤ g.world.width ∧ 0 ≤ g.world.height by omega)
  exact ⟨grid, Canvas.new? hgrid⟩

/-- A written id is stored and read back when it is a word, and otherwise is a fault. -/
theorem Writes.update (h : g.Writes layer x y k) {grid : Grid} (hgrid : g.Canvas grid) :
    (k < BiomeMap.positions → ∃ grid', Grid.update (stroke? layer) [(x, y)] grid = (grid', none) ∧
      grid.AgreeOff (fun a b => a = x ∧ b = y) grid' ∧ BiomeMap.get? grid' x y = .ok k) ∧
    (BiomeMap.positions ≤ k →
      Grid.update (stroke? layer) [(x, y)] grid = (grid, some .overflow)) := by
  obtain ⟨v, hv⟩ := hgrid.exists_cell? h.inside
  exact ⟨update_id_kept hgrid.cellType hv h.writes, update_id_lost hgrid.cellType hv h.writes⟩

/-- A generator keeps its ids exactly when all that it writes are words. -/
theorem keepsIds_iff :
    g.KeepsIds ↔ ∀ layer x y k, g.Writes layer x y k → k < BiomeMap.positions := by
  constructor
  · intro h layer x y k hk
    obtain ⟨grid, hgrid⟩ := exists_canvas_of_contains hk.inside
    obtain ⟨grid', hrun, -⟩ := h layer x y k hk grid hgrid
    by_contra hbig
    rw [(hk.update hgrid).2 (Nat.le_of_not_lt hbig)] at hrun
    cases hrun
  · intro h layer x y k hk grid hgrid
    obtain ⟨grid', hrun, -, hread⟩ := (hk.update hgrid).1 (h layer x y k hk)
    exact ⟨grid', hrun, hread⟩

/-- An ink of a map that is laid out covers all of its area. -/
theorem Lays.covers {area : Context} {outline : Option (Shape α)} {ink : Ink α}
    (h : g.Lays area outline ink) (hxy : area.contains x y = true) {map : Grid}
    (hmap : g.placeBiomes.outcome = .ok map) : g.Covers area outline ink := by
  obtain ⟨-, hzones⟩ := exists_placeBiomes_iff_fills.mp ⟨map, hmap⟩
  cases h with
  | zone hz hink => exact (hzones _ hz).1.2 _ hink
  | climate hz he hc harea hink =>
    obtain ⟨c, hc', area, harea', hfills⟩ := (hzones _ hz).2 _ he
    obtain rfl := Option.some.inj (hc.symm.trans hc')
    obtain rfl := Except.ok.inj (harea.symm.trans harea')
    exact (hfills (Window.isEmpty_of_contains hxy)).2 _ hink

/-- A map that is laid out lost no id on the way. -/
theorem keepsIds_of_placeBiomes {map : Grid} (hmap : g.placeBiomes.outcome = .ok map) :
    g.KeepsIds := by
  rw [keepsIds_iff]
  intro layer x y k hk
  obtain ⟨area, outline, ink, hlays, hlayer, hxy⟩ := hk.laid
  obtain ⟨layer', hlayer', hcovers⟩ := hlays.covers hxy hmap
  obtain rfl : layer' = layer := Except.ok.inj (hlayer'.symm.trans hlayer)
  obtain ⟨o, ho, hwords⟩ := hcovers x y hxy
  obtain rfl : o = some k := Except.ok.inj (ho.symm.trans hk.writes)
  exact hwords k rfl

theorem FollowsRule.get? {map : Grid} (h : g.FollowsRule map)
    (hxy : (Context.ofWorld g.world).contains x y = true) :
    ∃ k, g.biomeAt? x y = .ok k ∧ BiomeMap.get? map x y = .ok k := by
  obtain ⟨⟨hx, hxw⟩, hy, hyh⟩ := Context.contains_ofWorld_iff.mp hxy
  obtain ⟨k, hk, hcell⟩ := h x y hx hxw hy hyh
  refine ⟨k, hk, ?_⟩
  rw [BiomeMap.get?, hcell]
  rfl

end Ids
end Generator

/-- A name for a position: a row of marks, one longer than that of the position before. -/
def tally (k : Nat) : String := String.ofList (List.replicate (k + 1) '1')

theorem tally_injective : Function.Injective tally := by
  intro j k h
  have hlength := congrArg (fun name : String => name.toList.length) h
  simpa [tally] using hlength

theorem tally_le {j k : Nat} (h : j ≤ k) : tally j ≤ tally k := by
  obtain ⟨n, rfl⟩ := Nat.exists_eq_add_of_le h
  have happend : List.replicate (j + n + 1) '1' =
      List.replicate (j + 1) '1' ++ List.replicate n '1' := by
    rw [List.replicate_append_replicate]
    congr 1
    omega
  rw [String.le_iff_toList_le, tally, tally, String.toList_ofList, String.toList_ofList, happend]
  exact not_lt.mp List.le_append_left

namespace Settings

/-- A world of a single cell with biomes up to a position, the last of which is all that is laid. -/
def crowded (last : Nat) : Settings Float where
  zones := [("zone", ⟨1.0, 0.0, 1.0, ⟨1.0, 0.0, tally last, tally last⟩⟩)]
  climates := []
  biomes := (List.range (last + 1)).map fun k =>
    (tally k, ⟨(0, 0, 0), 1.0, .const 0.0, Span.full, [], [], .ignore⟩)
  world := ⟨1, 1, 0⟩
  spawnSize := 0.0
  heightTransition := 0.2
  transition := some (.const 0.0)
  shuffleClimates := false

variable {last : Nat}

theorem crowded_names : (crowded last).biomes.map Prod.fst = (List.range (last + 1)).map tally := by
  simp [crowded, Function.comp_def]

theorem crowded_inBounds : (crowded last).InBounds where
  zones e he := by
    obtain rfl := List.mem_singleton.mp he
    have hone : Scalar.IsShare (1.0 : Float) := by decide
    have hzero : Scalar.IsShare (0.0 : Float) := by decide
    exact ⟨hone.1, hone, hone, hzero⟩
  climates e he := absurd he List.not_mem_nil
  biomes e he := by
    obtain ⟨k, -, rfl⟩ := List.mem_map.mp he
    exact ⟨show Scalar.IsWeight (1.0 : Float) by decide⟩
  width := Int.one_pos
  height := Int.one_pos
  seed := le_rfl
  spawnSize :=
    show Scalar.le (0.0 : Float) 0.0 = true ∧ Scalar.lt (0.0 : Float) 1.0 = true by decide
  heightTransition := show Scalar.lt (0.0 : Float) 0.2 = true by decide

theorem sorted_crowded : (crowded last).sorted = crowded last := by
  have hbiomes : Order.byName (crowded last).biomes = (crowded last).biomes := by
    refine Order.byName_of_pairwise (List.pairwise_map.mpr ?_)
    exact (@List.pairwise_lt_range (last + 1)).imp fun hlt => tally_le (Nat.le_of_lt hlt)
  have hclimates : Order.byName (crowded last).climates = (crowded last).climates :=
    Order.byName_of_pairwise List.Pairwise.nil
  rw [sorted, hbiomes, hclimates]
  rfl

theorem crowded_distinct : (crowded last).Distinct where
  zones := List.nodup_singleton _
  climates := List.nodup_nil
  biomes := by
    rw [crowded_names]
    exact List.nodup_range.map tally_injective

theorem crowded_declared : (crowded last).Declared where
  zones e he := by
    obtain rfl := List.mem_singleton.mp he
    have hlast : tally last ∈ (crowded last).biomes.map Prod.fst := by
      rw [crowded_names]
      exact List.mem_map_of_mem (by simp)
    exact ⟨hlast, hlast⟩
  climates e he := absurd he List.not_mem_nil
  biomes e he := by
    obtain ⟨k, -, rfl⟩ := List.mem_map.mp he
    exact ⟨List.nil_subset _, List.nil_subset _⟩

end Settings

namespace Generator
variable {last : Nat} {g : Generator Float}

/-- The constructor takes any number of biomes. -/
theorem exists_build_crowded (last : Nat) :
    ∃ g, (build (Settings.crowded last)).outcome = .ok g := by
  have hshares : (Settings.crowded last).Shares :=
    ⟨List.cons_ne_nil _ _, show Scalar.le (Scalar.sum [(1.0 : Float)]) 0.0 = false by decide⟩
  have hresolve : ∃ r, Roster.resolve? (Settings.crowded last).sorted = .ok r := by
    rw [Settings.sorted_crowded]
    exact Roster.exists_resolve?_iff.mpr
      ⟨Settings.crowded_distinct, hshares, Settings.crowded_declared⟩
  obtain ⟨r, hr⟩ := hresolve
  have hweights : (Settings.crowded last).FiniteWeights := by
    refine ⟨fun e he => ?_, fun e he => absurd he List.not_mem_nil⟩
    obtain rfl := List.mem_singleton.mp he
    exact show (Double.value (1.0 : Float)).isFinite = true by decide
  have hsmall : (1 : Int) < 2 ^ 53 := by norm_num
  rw [build_outcome, hr, ok_bind]
  refine (layOut_verdict Settings.crowded_inBounds hweights hsmall hsmall
    (Roster.resolve?_ok hr)).1.mpr ⟨⟨[], ?_, Int.one_pos⟩, ?_⟩
  · rw [Settings.sorted_crowded]
    exact .nil
  · rw [Settings.layoutWeights, Settings.sorted_crowded]
    intro weights hmem hne
    obtain rfl : weights = [] := List.mem_singleton.mp hmem
    exact absurd rfl hne

/-- Whatever its rows, a zone of a crowded world is made of the last biome. -/
theorem producer_crowded (hg : (build (Settings.crowded last)).outcome = .ok g) {z : Zone Float}
    (hz : z ∈ g.zones) : z.producer = ⟨1.0, 0.0, last, last⟩ := by
  obtain ⟨k, hk⟩ := List.getElem?_of_mem hz
  obtain ⟨r, z₀, hr, hz₀, -, -, hproducer, -⟩ := build_zone hg hk
  obtain ⟨e, he, -, -, -, hresolve⟩ := forall₂_getElem? hr.zones hz₀
  rw [Settings.sorted_crowded] at he hresolve
  obtain rfl := List.mem_singleton.mp (List.mem_of_getElem? he)
  have hlast : Directory.resolve? "biome" ((Settings.crowded last).biomes.map Prod.fst)
      (tally last) = .ok last := by
    rw [Directory.resolve?_eq_ok Settings.crowded_distinct.biomes, Settings.crowded_names]
    simp
  rw [hproducer]
  simpa [Producer.resolve?, hlast, eq_comm] using hresolve

/-- A producer both of whose biomes are the same lays that one on all of its area. -/
theorem exists_layer?_of_same {area : Context} {p : Producer Float} {k biomes : Nat}
    (hp : p.InBounds biomes) (hsurface : p.surface = k) (hcave : p.cave = k)
    (htransition : g.transition.Evaluates g.world) (hworld : area.world = g.world)
    (hwithin : area.toWindow.Within g.world) :
    ∃ layer, g.layer? area none (.producer p) = .ok layer ∧
      ∀ x y, area.contains x y = true → layer x y = .ok (some k) := by
  obtain ⟨rough, hbake, hrough⟩ := htransition area hworld hwithin
  simp only [layer?, producerLayer?, hbake, ok_bind, pure_eq_ok, Except.ok.injEq, exists_eq_left']
  intro x y hxy
  obtain ⟨j, hj, -⟩ := exists_biomeAt? hp hxy (hrough x y hxy)
  obtain ⟨depth, -, hpart⟩ := bind_eq_ok.mp hj
  obtain ⟨part, -, hpart⟩ := map_eq_ok.mp hpart
  have hk : j = k := by
    rw [← hpart]
    cases part with
    | surface => exact hsurface
    | cave => exact hcave
  simp [within?, hj, hk]

section Zone
variable {z : Zone Float}

theorem rows_crowded (hg : (build (Settings.crowded last)).outcome = .ok g) (hz : z ∈ g.zones) :
    z.rows.start = 0 ∧ z.rows.stop = 1 := by
  obtain ⟨htop, hpos, hbottom⟩ := (build_rows hg).2.bounds (List.mem_map_of_mem hz)
  have hheight : (Settings.crowded last).world.height = 1 := rfl
  omega

theorem contains_crowded (hg : (build (Settings.crowded last)).outcome = .ok g) (hz : z ∈ g.zones) :
    (Context.ofZone g.world z.rows).contains 0 0 = true := by
  obtain ⟨hstart, hstop⟩ := rows_crowded hg hz
  rw [Window.contains_iff, Context.ofZone, (build_settings hg).1, hstart, hstop]
  exact ⟨⟨le_rfl, Int.one_pos⟩, le_rfl, Int.one_pos⟩

theorem holds_crowded (hg : (build (Settings.crowded last)).outcome = .ok g) (hz : z ∈ g.zones) :
    g.world.Holds (Context.ofZone g.world z.rows).toWindow := by
  obtain ⟨hstart, hstop⟩ := rows_crowded hg hz
  rw [(build_settings hg).1]
  exact ⟨le_rfl, hstart.ge, le_rfl, hstop.le⟩

/-- The producer of a crowded world writes its last id at every cell. -/
theorem exists_layer?_crowded (hg : (build (Settings.crowded last)).outcome = .ok g)
    (hz : z ∈ g.zones) :
    ∃ layer, g.layer? (Context.ofZone g.world z.rows) none (.producer z.producer) = .ok layer ∧
      ∀ x y, (Context.ofZone g.world z.rows).contains x y = true →
        layer x y = .ok (some last) := by
  have hp := ((build_inBounds Settings.crowded_inBounds hg).zones z hz).1
  have hproducer := producer_crowded hg hz
  have htransition : g.transition.Evaluates g.world := by
    rw [(build_settings hg).2.2.2.1]
    exact Sampler.evaluates_const 0.0 _
  obtain ⟨hx, hy, hxw, hyh⟩ := holds_crowded hg hz
  have hwithin : (Context.ofZone g.world z.rows).toWindow.Within g.world :=
    ⟨Window.isEmpty_of_contains (contains_crowded hg hz), ⟨hx, hxw⟩, ⟨hy, hyh⟩⟩
  exact exists_layer?_of_same hp (congrArg Producer.surface hproducer)
    (congrArg Producer.cave hproducer) htransition rfl hwithin

end Zone

/-- With too many biomes, the constructor returns a generator that fails as soon as it sweeps. -/
theorem placeBiomes_crowded (hg : (build (Settings.crowded last)).outcome = .ok g)
    (hbig : BiomeMap.positions ≤ last) : g.placeBiomes.outcome = .error .overflow := by
  obtain ⟨z, rest, hzones⟩ := List.exists_cons_of_ne_nil (build_rows hg).1
  have hz : z ∈ g.zones := by
    rw [hzones]
    exact List.mem_cons_self
  obtain ⟨layer, hlayer, hwrites⟩ := exists_layer?_crowded hg hz
  have hcell := contains_crowded hg hz
  have hworld := build_inBounds Settings.crowded_inBounds hg
  obtain ⟨grid, hgrid⟩ := exists_canvas_iff.mpr ⟨hworld.width.le, hworld.height.le⟩
  have hcanvas := Canvas.new? hgrid
  have hsweep : (Context.ofZone g.world z.rows).update? (stroke? layer) grid = .error .overflow :=
    update?_layer_overflow hcanvas.cellType (hcanvas.holds_iff.mpr (holds_crowded hg hz))
      (fun x y hxy => ⟨some last, hwrites x y hxy⟩) hcell (hwrites 0 0 hcell) hbig
  have hlay : g.lay? (Context.ofZone g.world z.rows) none (inks z.producer z.biomes) grid =
      .error .overflow := by
    rw [inks, lay?, hlayer, ok_bind, hsweep, error_bind]
  simp only [placeBiomes, hzones, layZones, Logged.outcome_bind, Logged.outcome_lift,
    Logged.outcome_note, hgrid, hlay, ok_bind, error_bind]

theorem not_keepsIds_crowded (hg : (build (Settings.crowded last)).outcome = .ok g)
    (hbig : BiomeMap.positions ≤ last) : ¬g.KeepsIds := by
  obtain ⟨z, hz⟩ := List.exists_mem_of_ne_nil _ (build_rows hg).1
  obtain ⟨layer, hlayer, hwrites⟩ := exists_layer?_crowded hg hz
  have hcell := contains_crowded hg hz
  have hinside : (Context.ofWorld g.world).contains 0 0 = true := by
    rw [(build_settings hg).1]
    rfl
  have hlast : g.Writes layer 0 0 last :=
    ⟨⟨_, _, _, .zone hz List.mem_cons_self, hlayer, hcell⟩, hinside, hwrites 0 0 hcell⟩
  rw [keepsIds_iff]
  intro h
  exact absurd (h layer 0 0 last hlast) (Nat.not_lt.mpr hbig)

/-- Ids survive a map exactly as far as they are words. What is written are ids of biomes; one that
is a word is stored without a fault and read back as it was, and any other is a fault that leaves the
grid as it is. So a map that is laid out has kept all ids, and gives at each cell the one that the
rule gives it. All settings of `n` biomes that the constructor takes keep their ids if and only if
`n` is not above the number of words; above it, settings are taken whose map is never laid out. -/
theorem ids_kept_iff_words (n : Nat) :
    (∀ (s : Settings Float) (g : Generator Float), s.biomes.length = n →
      (build s).outcome = .ok g →
      (g.KeepsIds ↔ ∀ layer x y k, g.Writes layer x y k → k < BiomeMap.positions) ∧
      (∀ layer x y k, g.Writes layer x y k → k < n ∧ ∀ grid, g.Canvas grid →
        (k < BiomeMap.positions → ∃ grid',
          Grid.update (stroke? layer) [(x, y)] grid = (grid', none) ∧
          grid.AgreeOff (fun a b => a = x ∧ b = y) grid' ∧ BiomeMap.get? grid' x y = .ok k) ∧
        (BiomeMap.positions ≤ k →
          Grid.update (stroke? layer) [(x, y)] grid = (grid, some .overflow))) ∧
      ∀ map, g.placeBiomes.outcome = .ok map → g.KeepsIds ∧
        ∀ x y, (Context.ofWorld g.world).contains x y = true →
          ∃ k, g.biomeAt? x y = .ok k ∧ BiomeMap.get? map x y = .ok k) ∧
    ((∀ (s : Settings Float) (g : Generator Float), s.InBounds → s.biomes.length = n →
      (build s).outcome = .ok g → g.KeepsIds) ↔ n ≤ BiomeMap.positions) ∧
    (BiomeMap.positions < n → ∃ (s : Settings Float) (g : Generator Float), s.InBounds ∧
      s.biomes.length = n ∧ (build s).outcome = .ok g ∧ ¬g.KeepsIds ∧
        g.placeBiomes.outcome = .error .overflow) := by
  have hcrowded (hbig : BiomeMap.positions < n) :
      ∃ (s : Settings Float) (g : Generator Float), s.InBounds ∧ s.biomes.length = n ∧
        (build s).outcome = .ok g ∧ ¬g.KeepsIds ∧ g.placeBiomes.outcome = .error .overflow := by
    obtain ⟨last, rfl⟩ := Nat.exists_eq_add_one_of_ne_zero (Nat.ne_zero_of_lt hbig)
    have hlast : BiomeMap.positions ≤ last := Nat.le_of_lt_succ hbig
    obtain ⟨g, hg⟩ := exists_build_crowded last
    exact ⟨Settings.crowded last, g, Settings.crowded_inBounds, by simp [Settings.crowded], hg,
      not_keepsIds_crowded hg hlast, placeBiomes_crowded hg hlast⟩
  refine ⟨fun s g hcount hg => ⟨keepsIds_iff, fun layer x y k hk => ?_, fun map hmap => ?_⟩,
    ⟨fun hkept => ?_, fun hfew s g _ hcount hg => ?_⟩, hcrowded⟩
  · exact ⟨(hk.lt_biomes hg).trans_eq hcount, fun grid hgrid => hk.update hgrid⟩
  · obtain ⟨grid, hgrid, hlay⟩ := placeBiomes_outcome.mp hmap
    have hrule := followsRule_of_layZones hg (Canvas.new? hgrid).cellType hlay
    exact ⟨keepsIds_of_placeBiomes hmap, fun x y hxy => hrule.get? hxy⟩
  · by_contra hbig
    obtain ⟨s, g, hs, hcount, hg, hlost, -⟩ := hcrowded (Nat.lt_of_not_le hbig)
    exact hlost (hkept s g hs hcount hg)
  · rw [keepsIds_iff]
    intro layer x y k hk
    exact (hk.lt_biomes hg).trans_le (hcount.trans_le hfew)

theorem ids_kept_iff_words_sample :
    (∃ g : Generator Float, (build Settings.sample).outcome = .ok g ∧ g.KeepsIds) ∧
    ∃ (s : Settings Float) (g : Generator Float), s.InBounds ∧ s.biomes.length = 65537 ∧
      (build s).outcome = .ok g ∧ g.placeBiomes.outcome = .error .overflow := by
  constructor
  · obtain ⟨g, hg⟩ := exists_build_sample
    have hfew : 2 ≤ BiomeMap.positions := by decide
    exact ⟨g, hg, (ids_kept_iff_words 2).2.1.mpr hfew Settings.sample g (by decide +kernel) rfl hg⟩
  · have hbig : BiomeMap.positions < 65537 := by decide
    obtain ⟨s, g, hs, hcount, hg, -, hfails⟩ := (ids_kept_iff_words 65537).2.2 hbig
    exact ⟨s, g, hs, hcount, hg, hfails⟩

end Generator
end TileWorld
