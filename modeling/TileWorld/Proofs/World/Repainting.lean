import TileWorld.Proofs.World.Painting
import TileWorld.Proofs.World.Renaming

/-! Terrain painted from maps that hold the same biomes under other positions. As long as biomes keep
their order, painters are made ready in the same order, so that the same tiles come out, or the same
fault. -/
namespace TileWorld

namespace BiomeMap

theorem pairwise_present (values : List Value) : (present values).Pairwise (· < ·) :=
  List.pairwise_lt_range.filter _

/-- Positions that keep their order are found in that order. -/
theorem present_moved {σ : Nat → Nat} (hσ : StrictMono σ) {values values' : List Value}
    (hfits : ∀ v ∈ values, position v < positions ∧ σ (position v) < positions)
    (hsame : ∀ k, (∃ v ∈ values', position v = k) ↔ ∃ v ∈ values, σ (position v) = k) :
    present values' = (present values).map σ := by
  have hmoved : ((present values).map σ).Pairwise (· < ·) :=
    (pairwise_present values).map σ fun _ _ h => hσ h
  refine (pairwise_present values').eq_of_mem_iff hmoved fun k => ?_
  rw [mem_present, hsame, List.mem_map]
  simp only [mem_present]
  constructor
  · rintro ⟨-, v, hv, rfl⟩
    exact ⟨position v, ⟨(hfits v hv).1, v, hv, rfl⟩, rfl⟩
  · rintro ⟨_, ⟨-, v, hv, rfl⟩, rfl⟩
    exact ⟨(hfits v hv).2, v, hv, rfl⟩

/-- A map whose cells hold the positions of another one, moved. -/
structure Moved (σ : Nat → Nat) (map map' : Grid) : Prop where
  width : map'.width = map.width
  height : map'.height = map.height
  cell? : ∀ x y v, map.cell? x y = some v → map'.cell? x y = some (.int (σ (position v) : Nat))

namespace Moved
variable {σ : Nat → Nat} {map map' : Grid}

theorem holds_iff (h : Moved σ map map') {w : Window} : map'.Holds w ↔ map.Holds w := by
  rw [Grid.Holds, h.width, h.height, Grid.Holds]

theorem view? (h : Moved σ map map') (w : Window) : map'.view? w = map.view? w := by
  unfold Grid.view?
  rw [h.width, h.height]

theorem get? (h : Moved σ map map') {x y : Int} {k : Nat} (hk : get? map x y = .ok k) :
    BiomeMap.get? map' x y = .ok (σ k) := by
  obtain ⟨v, hv, rfl⟩ := map_eq_ok.mp hk
  rw [BiomeMap.get?, Grid.get?_eq_ok.mpr (h.cell? x y v (Grid.get?_eq_ok.mp hv))]
  rfl

theorem exists_cell_iff (h : Moved σ map map') (x y : Int) (k : Nat) :
    (∃ v, map'.cell? x y = some v ∧ position v = k) ↔
      ∃ v, map.cell? x y = some v ∧ σ (position v) = k := by
  constructor
  · rintro ⟨v', hv', rfl⟩
    have hsome : ∃ v, map.cell? x y = some v := by
      rw [Grid.exists_cell?, ← h.width, ← h.height, ← Grid.exists_cell?]
      exact ⟨v', hv'⟩
    obtain ⟨v, hv⟩ := hsome
    obtain rfl := Option.some.inj ((h.cell? x y v hv).symm.trans hv')
    exact ⟨v, hv, rfl⟩
  · rintro ⟨v, hv, rfl⟩
    exact ⟨_, h.cell? x y v hv, rfl⟩

end Moved
end BiomeMap

namespace Generator
variable {α : Type} [Scalar α]

/-- Painters that stand at other positions. -/
def MovedPainters (g : Generator α) (σ : Nat → Nat) (table table' : Painters) : Prop :=
  ∀ k < g.biomes.size, table'[σ k]? = table[k]?

omit [Scalar α] in
theorem MovedPainters.set {g : Generator α} {σ : Nat → Nat} (hσ : StrictMono σ)
    {table table' : Painters} (h : g.MovedPainters σ table table') {k : Nat}
    (hk : k < g.biomes.size) (painter : Option BakedBrush) :
    g.MovedPainters σ (table.setIfInBounds k painter) (table'.setIfInBounds (σ k) painter) := by
  intro j hj
  by_cases hkj : k = j
  · subst j
    have hsize : σ k < table'.size ↔ k < table.size := by
      have hnone : table'[σ k]? = none ↔ table[k]? = none := by rw [h k hk]
      rw [Array.getElem?_eq_none_iff, Array.getElem?_eq_none_iff] at hnone
      omega
    rw [Array.getElem?_setIfInBounds_self, Array.getElem?_setIfInBounds_self]
    exact if_congr hsize rfl rfl
  · have hmoved : σ k ≠ σ j := hσ.injective.ne hkj
    rw [Array.getElem?_setIfInBounds_ne hkj, Array.getElem?_setIfInBounds_ne hmoved]
    exact h j hj

namespace Renames
variable {σ τ : Nat → Nat} {g g' : Generator α} {map map' : Grid} {z : Zone α}

section Painters

omit [Scalar α] in
theorem biome_lt (h : g.Renames σ τ g') {k : Nat} (hk : k < g.biomes.size) :
    σ k < g'.biomes.size := by
  have hb := h.biomes k
  rw [Array.getElem?_eq_getElem hk] at hb
  cases hb' : g'.biomes[σ k]? with
  | none => simp [hb'] at hb
  | some b => exact (Array.getElem?_eq_some_iff.mp hb').1

omit [Scalar α] in
theorem biomeName (h : g.Renames σ τ g') (k : Nat) :
    g'.biomes[σ k]?.map (·.name) = g.biomes[k]?.map (·.name) :=
  map_eq_map_of_rel (h.biomes k) fun _ _ hb => hb.name

omit [Scalar α] in
theorem biomeNames (h : g.Renames σ τ g') (ks : List Nat) :
    g'.biomeNames (ks.map σ) = g.biomeNames ks := by
  unfold Generator.biomeNames
  rw [List.filterMap_map]
  exact List.filterMap_congr fun k _ => h.biomeName k

omit [Scalar α] in
theorem movedPainters_blank (h : g.Renames σ τ g') :
    g.MovedPainters σ (Array.replicate g.biomes.size none)
      (Array.replicate g'.biomes.size none) := by
  intro k hk
  rw [Array.getElem?_replicate, Array.getElem?_replicate, if_pos hk, if_pos (h.biome_lt hk)]

variable [NoiseSource α]

/-- Painters are made ready in the same order, and stop at the same fault. -/
theorem painters? (h : g.Renames σ τ g') (hσ : StrictMono σ) (area : Context) (ks : List Nat)
    {table table' : Painters} (htable : g.MovedPainters σ table table') :
    Matches (g.MovedPainters σ) (g.painters? area ks table)
      (g'.painters? area (ks.map σ) table') := by
  induction ks generalizing table table' with
  | nil => exact .ok htable
  | cons k rest ih =>
    have hb := h.biomes k
    have hlt (b : Biome α) (hb : g.biomes[k]? = some b) : k < g.biomes.size :=
      (Array.getElem?_eq_some_iff.mp hb).1
    rw [List.map_cons, Generator.painters?, Generator.painters?]
    generalize g.biomes[k]? = o at hb hlt ⊢
    generalize g'.biomes[σ k]? = o' at hb ⊢
    cases hb with
    | none => exact .error _
    | @some b b' hb =>
      simp only [hb.painter]
      cases b.painter.bake area area.toWindow with
      | error e => exact .error e
      | ok painter => exact ih (htable.set hσ (hlt b rfl) (some painter))

end Painters

section Zones
variable [NoiseSource α]

omit [Scalar α] [NoiseSource α] in
/-- The positions found in a zone are those found before, moved. -/
theorem zonePositions (h : g.Renames σ τ g') (hσ : StrictMono σ)
    (hfits : ∀ k < g.biomes.size, σ k < BiomeMap.positions) (hmap : g.Maps map)
    (hmoved : BiomeMap.Moved σ map map') (hz : g.Lies z) :
    g'.zonePositions map' (z.renamed σ τ) = (g.zonePositions map z).map σ := by
  unfold Generator.zonePositions
  rw [h.world]
  have hholds := hz.holds hmap.width hmap.height
  have hcolumns : (0 : Int) ≤ g.world.width := by
    have := hmap.width
    omega
  refine BiomeMap.present_moved hσ (fun v hv => ?_) fun k => ?_
  · obtain ⟨x, y, -, hcell⟩ := (Grid.mem_viewRows hholds hcolumns hz.2.1).mp hv
    obtain ⟨k, rfl, hlt, hpositions⟩ := hmap.charted.2 x y v hcell
    exact ⟨hpositions, hfits k hlt⟩
  · have hholds' := hmoved.holds_iff.mpr hholds
    constructor
    · rintro ⟨v', hv', hk⟩
      obtain ⟨x, y, hxy, hv'⟩ := (Grid.mem_viewRows hholds' hcolumns hz.2.1).mp hv'
      obtain ⟨v, hv, hk⟩ := (hmoved.exists_cell_iff x y k).mp ⟨v', hv', hk⟩
      exact ⟨v, (Grid.mem_viewRows hholds hcolumns hz.2.1).mpr ⟨x, y, hxy, hv⟩, hk⟩
    · rintro ⟨v, hv, hk⟩
      obtain ⟨x, y, hxy, hv⟩ := (Grid.mem_viewRows hholds hcolumns hz.2.1).mp hv
      obtain ⟨v', hv', hk⟩ := (hmoved.exists_cell_iff x y k).mpr ⟨v, hv, hk⟩
      exact ⟨v', (Grid.mem_viewRows hholds' hcolumns hz.2.1).mpr ⟨x, y, hxy, hv'⟩, hk⟩

omit [Scalar α] [NoiseSource α] in
theorem paint? (hmap : g.Maps map) (hmoved : BiomeMap.Moved σ map map') (hz : g.Lies z)
    {table table' : Painters} (htable : g.MovedPainters σ table table') {x y : Int}
    (hxy : (Context.ofZone g.world z.rows).contains x y = true) (v : Value) :
    Generator.paint? table' map' x y v = Generator.paint? table map x y v := by
  obtain ⟨k, hk, hlt, -⟩ := hmap.mem_zonePositions hz hxy
  unfold Generator.paint?
  rw [hk, hmoved.get? hk, ok_bind, ok_bind, htable k hlt]

/-- Zones are painted alike, with the same reports. -/
theorem paintZones (h : g.Renames σ τ g') (hσ : StrictMono σ)
    (hfits : ∀ k < g.biomes.size, σ k < BiomeMap.positions) (hmap : g.Maps map)
    (hmoved : BiomeMap.Moved σ map map') {zones : List (Zone α)} (hzones : ∀ z ∈ zones, g.Lies z)
    (terrain : Grid) :
    g'.paintZones map' (zones.map (Zone.renamed σ τ)) terrain = g.paintZones map zones terrain := by
  induction zones generalizing terrain with
  | nil => rfl
  | cons z rest ih =>
    rw [List.forall_mem_cons] at hzones
    have hsize : (z.renamed σ τ).terrainSize = z.terrainSize := rfl
    have harea : Context.ofZone g'.world (z.renamed σ τ).rows = Context.ofZone g.world z.rows := by
      rw [h.world]
      rfl
    have hpositions := h.zonePositions hσ hfits hmap hmoved hzones.1
    unfold Generator.zonePositions at hpositions
    rw [harea] at hpositions
    rw [List.map_cons, Generator.paintZones, Generator.paintZones, hsize, harea]
    cases Scalar.same z.terrainSize 0.0 with
    | true => exact ih hzones.2 terrain
    | false =>
      simp only [Bool.false_eq_true, if_false, hmoved.view?]
      cases hview : map.view? (Context.ofZone g.world z.rows).toWindow with
      | error e => simp only [Logged.lift_error_bind]
      | ok view =>
        obtain rfl := (Grid.view?_eq_ok.mp hview).2
        simp only [Logged.lift_ok_bind, hpositions, h.biomeNames]
        -- The painters are the only thing made of the positions themselves.
        have hmatch := h.painters? hσ (Context.ofZone g.world z.rows)
          (BiomeMap.present (map.viewRows (Context.ofZone g.world z.rows).toWindow).flatten)
          h.movedPainters_blank
        generalize g.painters? _ _ _ = r at hmatch ⊢
        generalize g'.painters? _ _ _ = r' at hmatch ⊢
        cases hmatch with
        | error e => simp only [Logged.lift_error_bind]
        | @ok table table' htable =>
          have hupdate := Context.update?_congr (fun x y hxy v =>
            paint? hmap hmoved hzones.1 htable hxy v) terrain
          have hrest := ih hzones.2
          simp only [Logged.lift_ok_bind, hupdate, hrest]
          rfl

/-- Terrain does not tell where the biomes of a map stand. -/
theorem terrain (h : g.Renames σ τ g') (hzones : g'.zones = g.zones.map (Zone.renamed σ τ))
    (hσ : StrictMono σ) (hfits : ∀ k < g.biomes.size, σ k < BiomeMap.positions) (hmap : g.Maps map)
    (hmoved : BiomeMap.Moved σ map map') (hlies : ∀ z ∈ g.zones, g.Lies z) (fill : Value)
    (cellType : CellType) : g'.terrain map' fill cellType = g.terrain map fill cellType := by
  have hall := h.paintZones hσ hfits hmap hmoved hlies
  have hpaint : g'.paintTerrain map' fill cellType = g.paintTerrain map fill cellType := by
    simp only [paintTerrain, hmoved.width, hmoved.height, h.world, hzones, hall]
  rw [Generator.terrain, Generator.terrain, hpaint]

end Zones

end Renames
end Generator
end TileWorld
