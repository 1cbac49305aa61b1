import TileWorld.Proofs.World.Additions
import TileWorld.Proofs.World.Repainting

/-! A world with one more entry that nothing refers to is the same world, told by names. -/
namespace TileWorld
variable {α : Type}

namespace Generator

section Alike
variable [Scalar α] {s s' : Settings α} {g : Generator α}

/-- Zones of one name over the same rows, on which climates of the same names take the same columns. -/
def LaidAlike (g g' : Generator α) (z z' : Zone α) : Prop :=
  z'.name = z.name ∧ z'.rows = z.rows ∧
    List.Forall₂ (fun e e' => e'.2 = e.2 ∧ ∃ name, g.climates[e.1]?.map (·.name) = some name ∧
      g'.climates[e'.1]?.map (·.name) = some name) z.climates z'.climates

omit [Scalar α] in
theorem Renames.climateName {σ τ : Nat → Nat} {g' : Generator α} (h : g.Renames σ τ g') (k : Nat) :
    g'.climates[τ k]?.map (·.name) = g.climates[k]?.map (·.name) :=
  map_eq_map_of_rel (h.climates k) fun _ _ hc => hc.name

theorem Renames.laidAlike {σ τ : Nat → Nat} {g' : Generator α} (h : g.Renames σ τ g')
    (hg : (build s).outcome = .ok g) {z : Zone α} (hz : z ∈ g.zones) :
    g.LaidAlike g' z (z.renamed σ τ) := by
  refine ⟨rfl, rfl, ?_⟩
  rw [Zone.renamed, List.forall₂_map_right_iff, List.forall₂_same]
  intro e he
  have hlt := build_climate_lt hg hz he
  have hc := Array.getElem?_eq_getElem hlt
  refine ⟨rfl, g.climates[e.1].name, ?_, ?_⟩
  · rw [hc]
    rfl
  · rw [Prod.map_fst, h.climateName, hc]
    rfl

/-- The name of the biome at a cell of a map. -/
def biomeName? (g : Generator α) (map : Grid) (x y : Int) : Except Fault (Option String) :=
  (fun k => g.biomes[k]?.map (·.name)) <$> BiomeMap.get? map x y

section Maps
variable [NoiseSource α] [SquareRoot α] {σ τ : Nat → Nat} {g' : Generator α} {map map' : Grid}

theorem Renames.moved (h : g.Renames σ τ g') (hzones : g'.zones = g.zones.map (Zone.renamed σ τ))
    (hg : (build s).outcome = .ok g) (hg' : (build s').outcome = .ok g')
    (hmap : g.biomeMap.outcome = .ok map) (hmap' : g'.biomeMap.outcome = .ok map') :
    BiomeMap.Moved σ map map' := by
  obtain ⟨-, hwidth, hheight⟩ := biomeMap_charted hg hmap
  obtain ⟨-, hwidth', hheight'⟩ := biomeMap_charted hg' hmap'
  rw [h.world, ← hwidth, Nat.cast_inj] at hwidth'
  rw [h.world, ← hheight, Nat.cast_inj] at hheight'
  refine ⟨hwidth', hheight', fun x y v hv => ?_⟩
  obtain ⟨hx, hxw, hy, hyh⟩ := Grid.exists_cell?.mp ⟨v, hv⟩
  obtain ⟨k, hk, hk'⟩ := h.cells hzones (followsRule_of_biomeMap hg hmap)
    (followsRule_of_biomeMap hg' hmap') hx (hxw.trans_eq hwidth) hy (hyh.trans_eq hheight)
  obtain rfl := Option.some.inj (hv.symm.trans (Grid.get?_eq_ok.mp hk))
  exact Grid.get?_eq_ok.mp hk'

omit [Scalar α] [NoiseSource α] [SquareRoot α] in
theorem Renames.biomeName? (h : g.Renames σ τ g') (hmoved : BiomeMap.Moved σ map map')
    (hmap : g.Maps map) {x y : Int} (hx : 0 ≤ x) (hxw : x < map.width) (hy : 0 ≤ y)
    (hyh : y < map.height) : ∃ name, g.biomeName? map x y = .ok (some name) ∧
      g'.biomeName? map' x y = .ok (some name) := by
  obtain ⟨v, hv⟩ := Grid.exists_cell?.mpr ⟨hx, hxw, hy, hyh⟩
  obtain ⟨k, rfl, hlt, -⟩ := hmap.charted.2 x y v hv
  have hk : BiomeMap.get? map x y = .ok k := by
    rw [BiomeMap.get?, Grid.get?_eq_ok.mpr hv]
    rfl
  have hname : g.biomes[k]?.map (·.name) = some g.biomes[k].name := by
    rw [Array.getElem?_eq_getElem hlt]
    rfl
  refine ⟨g.biomes[k].name, ?_, ?_⟩
  · rw [Generator.biomeName?, hk]
    exact congrArg Except.ok hname
  · rw [Generator.biomeName?, hmoved.get? hk]
    exact congrArg Except.ok ((h.biomeName k).trans hname)

/-- One more biome or climate that nothing refers to goes unnoticed. The constructor accepts it, zones
keep their rows and climates their columns, shuffled or not; the map is laid out if it was before, with
biomes of the same names at all cells, and the terrain painted from it is the same, its reports and its
faults included. -/
theorem unreferenced_entry_unnoticed (h : s.Extends s') (hg : (build s).outcome = .ok g)
    (hcount : s.biomes.length ≤ 65535) :
    ∃ g', (build s').outcome = .ok g' ∧ List.Forall₂ (g.LaidAlike g') g.zones g'.zones ∧
      ((∃ map', g'.biomeMap.outcome = .ok map') ↔ ∃ map, g.biomeMap.outcome = .ok map) ∧
      ∀ map map', g.biomeMap.outcome = .ok map → g'.biomeMap.outcome = .ok map' →
        (map'.width = map.width ∧ map'.height = map.height) ∧
        (∀ x y : Int, 0 ≤ x → x < map.width → 0 ≤ y → y < map.height →
          ∃ name, g.biomeName? map x y = .ok (some name) ∧
            g'.biomeName? map' x y = .ok (some name)) ∧
        ∀ fill cellType, g'.terrain map' fill cellType = g.terrain map fill cellType := by
  obtain ⟨roster, rows, hroster, -⟩ := build_ok hg
  have hbiomes := Order.nodup_byName_iff.mp (Roster.nodup_of_checkUnique hroster.biomesUnique)
  have hclimates := Order.nodup_byName_iff.mp (Roster.nodup_of_checkUnique hroster.climatesUnique)
  obtain ⟨p, m, q, n, hw, hm⟩ := h.widens hbiomes hclimates
  obtain ⟨g', hg', hrenames, hzones⟩ := exists_build_widened hw hg
  have hfits : ∀ k < g.biomes.size, shifted p m k < BiomeMap.positions := by
    intro k hk
    have hle := shifted_le p m k
    rw [build_biomes_size hg] at hk
    unfold BiomeMap.positions
    omega
  have hfits' : ∀ k < g.biomes.size,
      shifted p m k < BiomeMap.positions ↔ k < BiomeMap.positions := by
    intro k hk
    refine iff_of_true (hfits k hk) ?_
    rw [build_biomes_size hg] at hk
    unfold BiomeMap.positions
    omega
  refine ⟨g', hg', ?_, ?_, fun map map' hmap hmap' => ?_⟩
  · rw [hzones, List.forall₂_map_right_iff, List.forall₂_same]
    exact fun z hz => hrenames.laidAlike hg hz
  · simp only [biomeMap_outcome]
    exact hrenames.placeBiomes_returns_iff hzones hfits' (build_below hg)
  · have hmoved := hrenames.moved hzones hg hg' hmap hmap'
    have hmaps := build_maps hg hmap
    refine ⟨⟨hmoved.width, hmoved.height⟩, fun x y hx hxw hy hyh =>
      hrenames.biomeName? hmoved hmaps hx hxw hy hyh, fun fill cellType => ?_⟩
    have htiles := (build_rows hg).2
    rw [← (build_settings hg).1] at htiles
    exact hrenames.terrain hzones (shifted_strictMono p m) hfits hmaps hmoved
      (fun z hz => (lies_of_tiles le_rfl htiles hz).1) fill cellType

end Maps

end Alike

end Generator

/-- A sample with one more biome, whose name comes first, so that all others move. -/
def Settings.grown [Scalar α] : Settings α :=
  { sample with
    biomes := ("fern", ⟨(0, 9, 0), 1.0, .const 0.0, Span.full, [], [], .ignore⟩) :: sample.biomes }

namespace Generator

theorem unreferenced_entry_unnoticed_sample : ∃ (g g' : Generator Float) (map map' : Grid),
    (build Settings.sample).outcome = .ok g ∧ g.biomeMap.outcome = .ok map ∧
      (build Settings.grown).outcome = .ok g' ∧ g'.biomeMap.outcome = .ok map' ∧
      g'.terrain map' (.int 7) .uint8 = g.terrain map (.int 7) .uint8 := by
  obtain ⟨g, map, hg, hmap⟩ := exists_map_sample
  have hmap := biomeMap_outcome.mpr hmap
  have hnew : "fern" ∉ (Settings.sample : Settings Float).biomes.map Prod.fst := by
    simp [Settings.sample, Settings.sampleOf]
  have hgrown : (Settings.sample : Settings Float).Extends Settings.grown :=
    .biome hnew rfl rfl (List.Perm.refl _)
  obtain ⟨g', hg', -, hreturns, hsame⟩ := unreferenced_entry_unnoticed hgrown hg
    (by simp [Settings.sample, Settings.sampleOf])
  obtain ⟨map', hmap'⟩ := hreturns.mpr ⟨map, hmap⟩
  exact ⟨g, g', map, map', hg, hmap, hg', hmap', (hsame map map' hmap hmap').2.2 _ _⟩

end Generator
end TileWorld
