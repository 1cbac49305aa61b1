import TileWorld.Proofs.Settings.Bounds
import TileWorld.Proofs.World.Zones
import TileWorld.World.Stratum

/-! What the constructor makes of settings within their bounds: the numbers stay within the same
bounds, and every position that stands for a climate or a biome is the position of one. -/
namespace TileWorld
variable {α : Type} [Scalar α]

theorem Directory.position?_lt {names : List String} {name : String} {k : Nat}
    (h : position? names name = some k) : k < names.length := by
  have hgo (rest : List String) (start : Nat) (found : Option Nat)
      (hfound : ∀ j ∈ found, j < start + rest.length)
      (h : position?.go name rest start found = some k) : k < start + rest.length := by
    induction rest generalizing start found with
    | nil => exact hfound k h
    | cons n rest ih =>
      rw [List.length_cons] at hfound ⊢
      have := ih (start + 1) (if n = name then some start else found) ?_ h
      · omega
      · intro j hj
        split_ifs at hj with hn
        · obtain rfl : start = j := by simpa using hj
          omega
        · have := hfound j hj
          omega
  simpa using hgo names 0 none (by simp) h

theorem Directory.resolve?_lt {kind name : String} {names : List String} {k : Nat}
    (h : resolve? kind names name = .ok k) : k < names.length := by
  unfold resolve? at h
  cases hk : position? names name with
  | none => simp [hk] at h
  | some j =>
    obtain rfl : j = k := by simpa [hk] using h
    exact position?_lt hk

theorem referrers_lt {references : List (List Nat)} {target k : Nat}
    (h : k ∈ referrers references target) : k < references.length := by
  simp only [referrers, List.mem_flatMap, List.mem_map] at h
  obtain ⟨⟨targets, j⟩, hj, _, _, rfl⟩ := h
  exact List.snd_lt_of_mem_zipIdx hj |>.trans_eq (by simp)

/-- The biomes of a producer lie below a number of biomes. -/
def Producer.Below (biomes : Nat) (p : Producer α) : Prop := p.surface < biomes ∧ p.cave < biomes

omit [Scalar α] in
theorem Producer.Below.biome_lt {biomes : Nat} {p : Producer α} (h : p.Below biomes)
    (part : Stratum) : p.biome part < biomes := by
  cases part with
  | surface => exact h.1
  | cave => exact h.2

omit [Scalar α] in
theorem Producer.resolve?_below {names : List String} {s : ProducerSettings α} {p : Producer α}
    (h : resolve? names s = .ok p) : p.Below names.length := by
  simp only [resolve?, bind_eq_ok, pure_eq_ok, Except.ok.injEq] at h
  obtain ⟨surface, hsurface, cave, hcave, rfl⟩ := h
  exact ⟨Directory.resolve?_lt hsurface, Directory.resolve?_lt hcave⟩

/-- A producer within its bounds, whose positions lie below a number of biomes. -/
structure Producer.InBounds (biomes : Nat) (p : Producer α) : Prop where
  surfaceSize : Scalar.IsShare p.surfaceSize
  surfaceTransition : Scalar.IsShare p.surfaceTransition
  surface_lt : p.surface < biomes
  cave_lt : p.cave < biomes

theorem Producer.resolve?_inBounds {names : List String} {s : ProducerSettings α} {p : Producer α}
    (hs : s.InBounds) (h : resolve? names s = .ok p) : p.InBounds names.length := by
  simp only [resolve?, bind_eq_ok, pure_eq_ok, Except.ok.injEq] at h
  obtain ⟨surface, hsurface, cave, hcave, rfl⟩ := h
  exact ⟨hs.surfaceSize, hs.surfaceTransition, Directory.resolve?_lt hsurface,
    Directory.resolve?_lt hcave⟩

namespace Generator

structure InBounds (g : Generator α) : Prop where
  width : 0 < g.world.width
  height : 0 < g.world.height
  spawnSize : Scalar.le 0.0 g.spawnSize = true ∧ Scalar.lt g.spawnSize 1.0 = true
  heightTransition : Scalar.lt 0.0 g.heightTransition = true
  zones : ∀ z ∈ g.zones, z.producer.InBounds g.biomes.size ∧ (∀ b ∈ z.biomes, b < g.biomes.size) ∧
    ∀ c ∈ z.climates, c.1 < g.climates.size
  climates : ∀ c ∈ g.climates.toList, Scalar.IsWeight c.widthWeight ∧ Scalar.IsShare c.depth ∧
    c.producer.InBounds g.biomes.size ∧ ∀ b ∈ c.biomes, b < g.biomes.size
  biomes : ∀ b ∈ g.biomes.toList, Scalar.IsWeight b.ratio

theorem SpreadsTo.frame {g : Generator α} {z z' : Zone α} (h : g.SpreadsTo z z') :
    z'.producer = z.producer ∧ z'.biomes = z.biomes := by
  obtain ⟨order, columns, -, -, -, rfl⟩ := h
  exact ⟨rfl, rfl⟩

/-- A zone of a generator is one of its roster, but for its rows and climates. -/
theorem build_zone {s : Settings α} {g : Generator α} (h : (build s).outcome = .ok g) {k : Nat}
    {z : Zone α} (hz : g.zones[k]? = some z) :
    ∃ roster z₀, Roster.Resolves s.sorted roster ∧ roster.zones[k]? = some z₀ ∧
      g.climates = roster.climates ∧ g.biomes = roster.biomes ∧
      z.producer = z₀.producer ∧ z.biomes = z₀.biomes := by
  obtain ⟨roster, rows, hroster, -, zones, stream, rfl, hzones⟩ := build_ok h
  obtain ⟨z₁, hz₁, hspread⟩ := forall₂_getElem? hzones hz
  obtain ⟨z₀, rows', hz₀, rfl⟩ := stacked_zone hz₁
  exact ⟨roster, z₀, hroster, hz₀, rfl, rfl, hspread.frame⟩

theorem build_biomes_size {s : Settings α} {g : Generator α} (hg : (build s).outcome = .ok g) :
    g.biomes.size = s.biomes.length := by
  obtain ⟨roster, rows, hroster, -, zones, stream, rfl, -⟩ := build_ok hg
  have hlength := hroster.biomes.length_eq
  rw [Array.length_toList] at hlength
  exact hlength.symm.trans (Order.byName_perm s.biomes).length_eq

/-- The climates of a zone are climates of the generator. -/
theorem build_climate_lt {s : Settings α} {g : Generator α} (hg : (build s).outcome = .ok g)
    {z : Zone α} (hz : z ∈ g.zones) {e : Nat × Interval} (he : e ∈ z.climates) :
    e.1 < g.climates.size := by
  obtain ⟨k, hk⟩ := List.getElem?_of_mem hz
  obtain ⟨order, columns, hperm, -, -, hzip⟩ := build_climates hg hk
  rw [hzip] at he
  have hmem := hperm.mem_iff.mp (List.of_mem_zip he).1
  rw [← Array.length_toList, ← List.length_map (·.zones)]
  exact referrers_lt hmem

/-- Producers of zones and climates name biomes of their generator. -/
theorem build_below {s : Settings α} {g : Generator α} (h : (build s).outcome = .ok g) :
    (∀ z ∈ g.zones, z.producer.Below g.biomes.size) ∧
      ∀ c ∈ g.climates.toList, c.producer.Below g.biomes.size := by
  have hcount (r : Roster α) (hr : Roster.Resolves s.sorted r) :
      (s.sorted.biomes.map Prod.fst).length = r.biomes.size := by
    simpa using hr.biomes.length_eq
  constructor
  · intro z hz
    obtain ⟨k, hk⟩ := List.getElem?_of_mem hz
    obtain ⟨r, z₀, hr, hz₀, -, hbiomes, hproducer, -⟩ := build_zone h hk
    obtain ⟨e, -, -, -, -, hresolve⟩ := forall₂_getElem? hr.zones hz₀
    rw [hproducer, hbiomes, ← hcount r hr]
    exact Producer.resolve?_below hresolve
  · intro c hc
    obtain ⟨roster, rows, hroster, -, zones, stream, rfl, -⟩ := build_ok h
    obtain ⟨e, -, -, -, -, -, hresolve, -⟩ := forall₂_exists_mem hroster.climates hc
    have hlt := Producer.resolve?_below hresolve
    rw [hcount roster hroster] at hlt
    exact hlt

theorem build_inBounds {s : Settings α} {g : Generator α} (hs : s.InBounds)
    (h : (build s).outcome = .ok g) : g.InBounds := by
  obtain ⟨roster, rows, hroster, -, zones, stream, hg, -⟩ := build_ok h
  obtain ⟨hworld, hspawn, hfade, -, -⟩ := build_settings h
  have hclimates : g.climates = roster.climates := by rw [hg]; rfl
  have hbiomes : g.biomes = roster.biomes := by rw [hg]; rfl
  have hcount (r : Roster α) (hr : Roster.Resolves s.sorted r) :
      (s.sorted.biomes.map Prod.fst).length = r.biomes.size := by
    simpa using hr.biomes.length_eq
  refine ⟨hworld ▸ hs.width, hworld ▸ hs.height, hspawn ▸ hs.spawnSize,
    hfade ▸ hs.heightTransition, fun z hz => ?_, fun c hc => ?_, fun b hb => ?_⟩
  · obtain ⟨k, hk⟩ := List.getElem?_of_mem hz
    obtain ⟨r, z₀, hr, hz₀, hclimates', hbiomes', hproducer, hzbiomes⟩ := build_zone h hk
    obtain ⟨e, he, -, -, -, hresolve⟩ := forall₂_getElem? hr.zones hz₀
    refine ⟨?_, fun b hb => ?_, fun c hc => build_climate_lt h hz hc⟩
    · rw [hproducer, hbiomes', ← hcount r hr]
      exact Producer.resolve?_inBounds (hs.sorted.zones e (List.mem_of_getElem? he)).producer hresolve
    · rw [hzbiomes, hr.zoneBiomes k z₀ hz₀] at hb
      simpa [hbiomes'] using referrers_lt hb
  · rw [hclimates] at hc
    obtain ⟨k, hk⟩ := List.getElem?_of_mem hc
    obtain ⟨e, he, -, -, hweight, hdepth, hproducer, -⟩ := forall₂_exists_mem hroster.climates hc
    have hbounds := hs.sorted.climates e he
    refine ⟨hweight ▸ hbounds.widthWeight, hdepth ▸ hbounds.depth, ?_, fun b hb => ?_⟩
    · rw [hbiomes, ← hcount roster hroster]
      exact Producer.resolve?_inBounds hbounds.producer hproducer
    · rw [hroster.climateBiomes k c (by simpa using hk)] at hb
      simpa [hbiomes] using referrers_lt hb
  · rw [hbiomes] at hb
    obtain ⟨e, he, -, -, hratio, -⟩ := forall₂_exists_mem hroster.biomes hb
    exact hratio ▸ (hs.sorted.biomes e he).ratio

end Generator
end TileWorld
