import TileWorld.Proofs.Baking.Strokes
import TileWorld.Proofs.World.Painting

/-! What tiles there can be. A brush keeps a cell or paints one of its own values, so that painting a
map, zone after zone, stores nothing but the fill and the values of the painters. -/
namespace TileWorld
variable {α : Type} [Scalar α] [NoiseSource α]

namespace Generator
variable {g : Generator α} {map terrain terrain' : Grid} {z : Zone α} {fill : Value} {x y : Int}

/-- What a cell of tiles may hold, as their type stores it: the fill, or a value at the leaves of the
painter of the cell's biome. -/
def Offers (g : Generator α) (map : Grid) (cellType : CellType) (fill : Value) (x y : Int)
    (w : Value) : Prop :=
  cellType.cast? fill = .ok w ∨ ∃ k b v, BiomeMap.get? map x y = .ok k ∧ g.biomes[k]? = some b ∧
    v ∈ b.painter.fills ∧ cellType.cast? v = .ok w

/-- The painters of a zone are those of the biomes at their cells. -/
theorem fills_of_paint? {painters : Painters} (hpainters : g.zonePainters? map z = .ok painters)
    {current v : Value} (h : paint? painters map x y current = .ok (.paint v)) :
    ∃ k b, BiomeMap.get? map x y = .ok k ∧ g.biomes[k]? = some b ∧ v ∈ b.painter.fills := by
  obtain ⟨hold, hsize, hready⟩ := painters?_ok hpainters
  obtain ⟨k, hk, h⟩ := bind_eq_ok.mp h
  split at h
  · rename_i painter hentry
    have hlt := (Array.getElem?_eq_some_iff.mp hentry).1
    by_cases hmem : k ∈ g.zonePositions map z
    · obtain ⟨b, baked, hb, hbake, hbaked⟩ := hready k hmem (hsize ▸ hlt)
      obtain rfl : painter = baked := by simpa using hentry.symm.trans hbaked
      exact ⟨k, b, hk, hb, Brush.mem_fills_of_bake hbake h⟩
    · rw [hold k hmem, Array.getElem?_replicate] at hentry
      split_ifs at hentry
      cases hentry
  · cases h

/-- A zone that is painted keeps to the palette. -/
theorem paintZone?_offers (h : g.paintZone? map z terrain = .ok terrain')
    (hterrain : ∀ x y w, terrain.cell? x y = some w →
      g.Offers map terrain.cellType fill x y w) :
    terrain'.cellType = terrain.cellType ∧ ∀ x y w, terrain'.cell? x y = some w →
      g.Offers map terrain.cellType fill x y w := by
  obtain ⟨view, -, h⟩ := bind_eq_ok.mp h
  obtain ⟨painters, hpainters, h⟩ := bind_eq_ok.mp h
  obtain ⟨-, hagree, hredrawn⟩ := Context.update?_ok h
  refine ⟨hagree.cellType, fun x y w hw => ?_⟩
  by_cases hxy : (Context.ofZone g.world z.rows).contains x y = true
  · obtain ⟨v, hv, hcell⟩ := hredrawn x y hxy
    obtain rfl : v = w := Option.some.inj (hcell.symm.trans hw)
    obtain ⟨current, hcurrent, hv⟩ := bind_eq_ok.mp hv
    obtain ⟨stroke, hstroke, hv⟩ := bind_eq_ok.mp hv
    cases stroke with
    | keep =>
      obtain rfl : current = v := Except.ok.inj hv
      exact hterrain x y current (Grid.get?_eq_ok.mp hcurrent)
    | paint u =>
      obtain ⟨k, b, hk, hb, hu⟩ := fills_of_paint? hpainters hstroke
      exact Or.inr ⟨k, b, u, hk, hb, hu, hv⟩
  · exact hterrain x y w ((hagree.cell? x y hxy).symm.trans hw)

theorem paintZones_offers {zones : List (Zone α)}
    (h : (g.paintZones map zones terrain).outcome = .ok terrain')
    (hterrain : ∀ x y w, terrain.cell? x y = some w →
      g.Offers map terrain.cellType fill x y w) :
    ∀ x y w, terrain'.cell? x y = some w → g.Offers map terrain.cellType fill x y w := by
  induction zones generalizing terrain with
  | nil =>
    obtain rfl : terrain = terrain' := Except.ok.inj h
    exact hterrain
  | cons z rest ih =>
    rw [paintZones_cons] at h
    split_ifs at h
    · exact ih h hterrain
    · obtain ⟨next, hnext, h⟩ := bind_eq_ok.mp h
      obtain ⟨htype, hoffers⟩ := paintZone?_offers hnext hterrain
      rw [← htype] at hoffers ⊢
      exact ih h hoffers

/-- All tiles are on the palette, whatever the map. -/
theorem paintTerrain_offers {cellType : CellType}
    (h : (g.paintTerrain map fill cellType).outcome = .ok terrain) :
    ∀ x y w, terrain.cell? x y = some w → g.Offers map cellType fill x y w := by
  unfold paintTerrain at h
  split_ifs at h
  · cases h
  · rw [Logged.outcome_bind, Logged.outcome_lift] at h
    obtain ⟨blank, hnew, hpaint⟩ := bind_eq_ok.mp h
    obtain ⟨rfl, -⟩ := Grid.new?_ok hnew
    exact paintZones_offers hpaint fun x y w hw => Or.inl (Grid.new?_cell? hnew hw)

end Generator

namespace Brush

/-- A brush that can be applied to a cell, as it can when it has a rule at every node and its
samplers give numbers there, keeps the cell or paints one value of its own leaves, and what the cell
holds has no say in which; made ready it does the same. So to apply it again changes nothing, and
neither does flattening it, and tiles are the fill or values at the leaves of the painters of their
biomes. -/
theorem keeps_or_paints_own :
    (∀ (b : Brush α) (ctx : Context) (pass : Window) (x y : Int),
      (b.Definite → (∀ s ∈ b.samplers, ∃ v, s.sample? ctx pass x y = .ok v) →
        ∃ v w, b.painted? ctx pass x y v = .ok w) ∧
      ((∃ v w, b.painted? ctx pass x y v = .ok w) →
        (∀ v, b.painted? ctx pass x y v = b.applied? ctx pass x y v) ∧
        ((∀ v, b.applied? ctx pass x y v = .ok v) ∨
          ∃ w ∈ b.fills, ∀ v, b.applied? ctx pass x y v = .ok w) ∧
        (∀ v, b.applied? ctx pass x y v >>= b.applied? ctx pass x y = b.applied? ctx pass x y v) ∧
        ∀ c, b.Flattens c → c.bake ctx pass = b.bake ctx pass ∧
          ∀ v, c.applied? ctx pass x y v = b.applied? ctx pass x y v)) ∧
    ∀ (g : Generator α) (map terrain : Grid) (fill : Value) (cellType : CellType),
      (g.paintTerrain map fill cellType).outcome = .ok terrain →
        ∀ x y w, terrain.cell? x y = some w → g.Offers map cellType fill x y w := by
  refine ⟨fun b ctx pass x y => ⟨fun hb hsamplers => ?_, ?_⟩, fun g map terrain fill cellType h =>
    Generator.paintTerrain_offers h⟩
  · obtain ⟨baked, s, hbaked, hs⟩ := hb.exists_stroke hsamplers
    refine ⟨.none, s.applyTo .none, ?_⟩
    rw [painted?, hbaked, ok_bind, hs]
    rfl
  · rintro ⟨v₀, w₀, hpainted⟩
    obtain ⟨baked, hbaked, hpainted⟩ := bind_eq_ok.mp hpainted
    obtain ⟨s, hs, -⟩ := bind_eq_ok.mp hpainted
    have hsides := keeps_or_paints hbaked hs
    refine ⟨fun v => ?_, hsides, fun v => ?_, fun c hc => ⟨hc.bake_eq ctx pass, fun v => ?_⟩⟩
    · rw [applied?_eq hbaked, painted?, hbaked]
      rfl
    · rcases hsides with hkeeps | ⟨w, -, hpaints⟩
      · rw [hkeeps, ok_bind, hkeeps]
      · rw [hpaints, ok_bind, hpaints]
    · rw [applied?_eq hbaked, applied?_eq ((hc.bake_eq ctx pass).trans hbaked)]

/-- Layers within layers, some of which keep every cell, and a selection. -/
def strata : Brush Float :=
  .layers [.ignore, .layers [.fill (.int 1), .ignore],
    .selector (.const 0.75) [(0.5, .fill (.int 2)), (1.0, .layers [.fill (.int 3)])]]

theorem keeps_or_paints_own_sample :
    (∃ w ∈ strata.fills, ∀ v,
      strata.applied? ⟨⟨⟨0, 4⟩, ⟨0, 4⟩⟩, ⟨4, 4, 1⟩⟩ ⟨⟨1, 3⟩, ⟨0, 4⟩⟩ 1 3 v = .ok w) ∧
      ∀ v, (layers [.fill (.int 1), .ignore, .selector (.const 0.75)
        [(0.5, .fill (.int 2)), (1.0, .layers [.fill (.int 3)])]]).applied?
          ⟨⟨⟨0, 4⟩, ⟨0, 4⟩⟩, ⟨4, 4, 1⟩⟩ ⟨⟨1, 3⟩, ⟨0, 4⟩⟩ 1 3 v =
        strata.applied? ⟨⟨⟨0, 4⟩, ⟨0, 4⟩⟩, ⟨4, 4, 1⟩⟩ ⟨⟨1, 3⟩, ⟨0, 4⟩⟩ 1 3 v := by
  have hdefinite : strata.Definite := by
    refine .layers ?_
    simp only [List.forall_mem_cons, List.not_mem_nil, false_imp_iff, implies_true, and_true]
    refine ⟨.ignore, .layers ?_, .selector _ ?_⟩
    · simp [Definite.fill, Definite.ignore]
    · simp only [List.forall_mem_cons, List.not_mem_nil, false_imp_iff, implies_true, and_true]
      exact ⟨.fill _, .layers (by simp [Definite.fill])⟩
  have hsamplers : ∀ s ∈ strata.samplers, ∃ v,
      s.sample? ⟨⟨⟨0, 4⟩, ⟨0, 4⟩⟩, ⟨4, 4, 1⟩⟩ ⟨⟨1, 3⟩, ⟨0, 4⟩⟩ 1 3 = .ok v := by
    intro s hs
    obtain rfl : s = .const 0.75 := by simpa [strata, samplers, samplersOf, childSamplers] using hs
    exact ⟨0.75, rfl⟩
  obtain ⟨hreturns, hlaws⟩ := keeps_or_paints_own.1 strata _ _ 1 3
  obtain ⟨-, hsides, -, hflat⟩ := hlaws (hreturns hdefinite hsamplers)
  refine ⟨hsides.resolve_left fun hkeeps => ?_, (hflat _ ?_).2⟩
  · have hlow : Scalar.lt (0.75 : Float) 0.5 = false := by decide
    have hkept := hkeeps .none
    simp [strata, applied?, appliedLayers?, appliedChild?, Sampler.sample?, Sampler.bake,
      hlow] at hkept
  · exact .trans (.drop [] _) (.splice [] _ _)

end Brush
end TileWorld
