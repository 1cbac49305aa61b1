import TileWorld.Proofs.World.Bounds
import TileWorld.Proofs.World.CellRule
import TileWorld.World.Terrain

/-! The cells of a biome map hold positions of biomes. A grid that holds nothing else is laid over
with nothing else, since every name was resolved when the generator was made. -/
namespace TileWorld.Generator
variable {α : Type}

/-- The position of a biome, as a map holds it. -/
def Placed (g : Generator α) (v : Value) : Prop :=
  ∃ k : Nat, v = .int k ∧ k < g.biomes.size ∧ k < BiomeMap.positions

/-- A grid all of whose cells hold positions of biomes. -/
def Charted (g : Generator α) (grid : Grid) : Prop :=
  grid.cellType = .uint16 ∧ ∀ x y v, grid.cell? x y = some v → g.Placed v

variable [Scalar α] [NoiseSource α] [SquareRoot α]

/-- An ink that lays no more than the biomes of the generator. -/
def Names (g : Generator α) : Ink α → Prop
  | .producer p => p.Below g.biomes.size
  | .biome _ => True

variable {g : Generator α} {area : Context} {outline : Option (Shape α)} {grid grid' : Grid}

theorem Names.layer_lt {ink : Ink α} (hink : g.Names ink) {layer : Layer}
    (h : g.layer? area outline ink = .ok layer) {x y : Int} {k : Nat}
    (hk : layer x y = .ok (some k)) : k < g.biomes.size := by
  cases ink with
  | producer p =>
    simp only [layer?, producerLayer?, bind_eq_ok, pure_eq_ok, Except.ok.injEq] at h
    obtain ⟨rough, -, rfl⟩ := h
    obtain ⟨inside, -, hk⟩ := bind_eq_ok.mp hk
    cases inside with
    | false => simp at hk
    | true =>
      obtain ⟨j, hj, hjk⟩ := map_eq_ok.mp hk
      obtain rfl : j = k := Option.some.inj hjk
      obtain ⟨depth, -, hj⟩ := bind_eq_ok.mp hj
      obtain ⟨part, -, rfl⟩ := map_eq_ok.mp hj
      exact hink.biome_lt part
  | biome b =>
    simp only [layer?, biomeLayer?] at h
    cases hb : g.biomes[b]? with
    | none => simp [hb] at h
    | some settled =>
      simp only [hb, bind_eq_ok, pure_eq_ok, Except.ok.injEq] at h
      obtain ⟨height, -, selection, -, rfl⟩ := h
      obtain ⟨inside, -, hk⟩ := bind_eq_ok.mp hk
      cases inside with
      | false => simp at hk
      | true =>
        obtain ⟨settles, -, hk⟩ := bind_eq_ok.mp hk
        cases settles with
        | false => simp at hk
        | true =>
          obtain rfl : b = k := by simpa using hk
          exact (Array.getElem?_eq_some_iff.mp hb).1

/-- An ink leaves the position of a biome where one was. -/
theorem overlay?_placed {ink : Ink α} (hink : g.Names ink) {x y : Int} {v w : Value}
    (hv : g.Placed v) (h : g.overlay? area outline x y v ink = .ok w) : g.Placed w := by
  obtain ⟨layer, hlayer, h⟩ := bind_eq_ok.mp h
  obtain ⟨o, ho, h⟩ := bind_eq_ok.mp h
  cases o with
  | none =>
    obtain rfl : v = w := by simpa using h
    exact hv
  | some k =>
    have hcast := CellType.cast?_position.mp h
    exact ⟨k, hcast.2, hink.layer_lt hlayer ho, hcast.1⟩

theorem Charted.lay? (hgrid : g.Charted grid) {inks : List (Ink α)}
    (hinks : ∀ ink ∈ inks, g.Names ink) (h : g.lay? area outline inks grid = .ok grid') :
    g.Charted grid' := by
  obtain ⟨hagree, hcells⟩ := lay?_ok hgrid.1 h
  refine ⟨hagree.cellType.trans hgrid.1, fun x y w hw => ?_⟩
  by_cases hxy : area.contains x y = true
  · have hinside : ∃ v, grid.cell? x y = some v := by
      rw [Grid.exists_cell?, ← hagree.width, ← hagree.height, ← Grid.exists_cell?]
      exact ⟨w, hw⟩
    obtain ⟨v, hv⟩ := hinside
    obtain ⟨u, hu, hcell⟩ := hcells x y hxy v hv
    obtain rfl : u = w := Option.some.inj (hcell.symm.trans hw)
    refine foldlM_preserves (fun ink hink v' w' hv' hw' => ?_) (hgrid.2 x y v hv) hu
    exact overlay?_placed (hinks ink hink) hv' hw'
  · exact hgrid.2 x y w ((hagree.cell? x y hxy).symm.trans hw)

theorem Charted.layInks (hgrid : g.Charted grid) {p : Producer α} (hp : p.Below g.biomes.size)
    {biomes : List Nat} (h : g.lay? area outline (inks p biomes) grid = .ok grid') :
    g.Charted grid' := by
  refine hgrid.lay? ?_ h
  rw [inks, List.forall_mem_cons, List.forall_mem_map]
  exact ⟨hp, fun _ _ => trivial⟩

theorem Charted.layClimates (hgrid : g.Charted grid)
    (hclimates : ∀ c ∈ g.climates.toList, c.producer.Below g.biomes.size) {z : Zone α}
    {climates : List (Nat × Interval)}
    (h : (g.layClimates z climates grid).outcome = .ok grid') : g.Charted grid' := by
  induction climates generalizing grid with
  | nil =>
    obtain rfl : grid = grid' := by simpa [Generator.layClimates] using h
    exact hgrid
  | cons climate rest ih =>
    obtain ⟨c, hc, area, -, next, hnext, hrest⟩ := layClimates_cons.mp h
    refine ih ?_ hrest
    split_ifs at hnext with hempty
    · obtain rfl : grid = next := Except.ok.inj hnext
      exact hgrid
    · have hmem : c ∈ g.climates.toList := Array.mem_toList_iff.mpr (Array.mem_of_getElem? hc)
      exact hgrid.layInks (hclimates c hmem) hnext

theorem Charted.layZones (hgrid : g.Charted grid)
    (hclimates : ∀ c ∈ g.climates.toList, c.producer.Below g.biomes.size) {zones : List (Zone α)}
    (hzones : ∀ z ∈ zones, z.producer.Below g.biomes.size)
    (h : (g.layZones zones grid).outcome = .ok grid') : g.Charted grid' := by
  induction zones generalizing grid with
  | nil =>
    obtain rfl : grid = grid' := by simpa [Generator.layZones] using h
    exact hgrid
  | cons z rest ih =>
    rw [List.forall_mem_cons] at hzones
    obtain ⟨filled, hfill, covered, hcover, hrest⟩ := layZones_cons.mp h
    exact ih ((hgrid.layInks hzones.1 hfill).layClimates hclimates hcover) hzones.2 hrest

omit [NoiseSource α] [SquareRoot α] in
/-- A new grid holds the position of the first biome, which every generator has. -/
theorem charted_new? {s : Settings α} (hg : (build s).outcome = .ok g)
    (h : Grid.new? g.world.width g.world.height (.int 0) .uint16 false = .ok grid) :
    g.Charted grid := by
  obtain ⟨hne, -⟩ := build_rows hg
  obtain ⟨z, rest, hz⟩ := List.exists_cons_of_ne_nil hne
  have hsome : z.producer.Below g.biomes.size := (build_below hg).1 z (by rw [hz]; simp)
  refine ⟨(Grid.new?_ok h).1, fun x y v hv => ⟨0, ?_, by have := hsome.1; omega, by decide⟩⟩
  exact Except.ok.inj ((Grid.new?_cell? h hv).symm.trans rfl)

/-- The cells of a map hold positions of biomes, and it has the size of the world. -/
theorem biomeMap_charted {s : Settings α} (hg : (build s).outcome = .ok g) {map : Grid}
    (h : g.biomeMap.outcome = .ok map) :
    g.Charted map ∧ (map.width : Int) = g.world.width ∧ (map.height : Int) = g.world.height := by
  have hplace : g.placeBiomes.outcome = .ok map := by
    simpa [biomeMap, bind_eq_ok] using h
  obtain ⟨grid, hgrid, hlay⟩ := placeBiomes_outcome.mp hplace
  have hbelow := build_below hg
  have hcharted := (charted_new? hg hgrid).layZones hbelow.2 hbelow.1 hlay
  have hagree := (layZones_ok (build_rows hg).2 (Grid.new?_ok hgrid).1 hlay).1
  obtain ⟨-, hwidth, hheight⟩ := Grid.new?_ok hgrid
  exact ⟨hcharted, by rw [hagree.width, hwidth], by rw [hagree.height, hheight]⟩

end TileWorld.Generator
