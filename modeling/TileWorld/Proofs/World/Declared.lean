import TileWorld.Proofs.Number.Stored
import TileWorld.Proofs.World.Zones
import TileWorld.World.Terrain

/-! Settings are put in order before anything is made of them, so that the order of declarations has
no say: neither in what is built, nor in what is refused and how. -/
namespace TileWorld

/-- Settings with the same declarations in another order. Zones may only change places when their
priorities are numbers, no two of which are equal. -/
structure Settings.Reordered (s s' : Settings Float) : Prop where
  zones : s'.zones = s.zones ∨ s'.zones.Perm s.zones ∧
    (∀ e ∈ s.zones, e.2.priority.isNaN = false) ∧
    s.zones.Pairwise fun e e' => Scalar.same e.2.priority e'.2.priority = false
  climates : s'.climates.Perm s.climates
  biomes : s'.biomes.Perm s.biomes
  rest : s' = { s with zones := s'.zones, climates := s'.climates, biomes := s'.biomes }

namespace Settings.Reordered
variable {s s' : Settings Float}

theorem sorted_zones (h : s.Reordered s') : s'.sorted.zones = s.sorted.zones := by
  rcases h.zones with hsame | ⟨hperm, hnumbers, hdistinct⟩
  · simp only [sorted, hsame]
  · have hkey : ∀ a ∈ s.zones, ∀ b ∈ s.zones, Scalar.lt b.2.priority a.2.priority = true ↔
        Double.place b.2.priority < Double.place a.2.priority :=
      fun a ha b hb => Double.scalar_lt_iff_place (hnumbers b hb) (hnumbers a ha)
    have hkeys : s.zones.Pairwise fun a b =>
        Double.place a.2.priority ≠ Double.place b.2.priority :=
      hdistinct.imp_of_mem fun {a b} ha hb hab hplace => by
        rw [(Double.scalar_same_iff_place (hnumbers a ha) (hnumbers b hb)).mpr hplace] at hab
        exact Bool.noConfusion hab
    simp only [sorted]
    exact Order.ascending_eq_of_perm hperm hkey hkeys

theorem climate_names (h : s.Reordered s') :
    (s'.sorted.climates.map Prod.fst).Perm (s.sorted.climates.map Prod.fst) :=
  ((Order.byName_perm s'.climates).trans
    (h.climates.trans (Order.byName_perm s.climates).symm)).map Prod.fst

theorem biome_names (h : s.Reordered s') :
    (s'.sorted.biomes.map Prod.fst).Perm (s.sorted.biomes.map Prod.fst) :=
  ((Order.byName_perm s'.biomes).trans
    (h.biomes.trans (Order.byName_perm s.biomes).symm)).map Prod.fst

/-- Without repeated names there is one order of all declarations. -/
theorem sorted_eq (h : s.Reordered s') (hclimates : (s.sorted.climates.map Prod.fst).Nodup)
    (hbiomes : (s.sorted.biomes.map Prod.fst).Nodup) : s'.sorted = s.sorted := by
  calc s'.sorted
      = { s' with zones := s'.sorted.zones, climates := s'.sorted.climates
                  biomes := s'.sorted.biomes } := rfl
    _ = { s with zones := s'.sorted.zones, climates := s'.sorted.climates
                 biomes := s'.sorted.biomes } := by rw [h.rest]
    _ = s.sorted := by
      rw [h.sorted_zones, show s'.sorted.climates = s.sorted.climates from
          Order.byName_eq_of_perm h.climates (Order.nodup_byName_iff.mp hclimates),
        show s'.sorted.biomes = s.sorted.biomes from
          Order.byName_eq_of_perm h.biomes (Order.nodup_byName_iff.mp hbiomes)]
      rfl

/-- Repeated names are reported alike, and all that follows sees one order. -/
theorem resolve?_eq (h : s.Reordered s') : Roster.resolve? s'.sorted = Roster.resolve? s.sorted := by
  have hclimates := @Roster.checkUnique_eq_of_perm "climate" _ _ h.climate_names
  have hbiomes := @Roster.checkUnique_eq_of_perm "biome" _ _ h.biome_names
  unfold Roster.resolve?
  rw [h.sorted_zones, hclimates, hbiomes]
  refine bind_congr fun _ => ?_
  cases hc : Roster.checkUnique "climate" (s.sorted.climates.map Prod.fst) with
  | error e => rw [error_bind, error_bind]
  | ok _ =>
    cases hb : Roster.checkUnique "biome" (s.sorted.biomes.map Prod.fst) with
    | error e => rw [ok_bind, ok_bind, error_bind, error_bind]
    | ok _ =>
      have hsorted : s'.sorted = s.sorted :=
        h.sorted_eq (Roster.nodup_of_checkUnique hc) (Roster.nodup_of_checkUnique hb)
      rw [hsorted]

end Settings.Reordered

namespace Generator

/-- The order of declarations has no say: the same generator is built with the same reports, or the
same fault is found, and all maps are the same. -/
theorem build_reordered {s s' : Settings Float} (h : s.Reordered s') :
    build s' = build s ∧
      ∀ fill, (do (← build s').generate fill) = (do (← build s).generate fill) := by
  have hbuild : build s' = build s := by
    have hroster (r : Roster Float) : ofRoster s'.sorted r = ofRoster s.sorted r := by
      rw [h.rest]
      rfl
    simp only [build, h.resolve?_eq, hroster]
  exact ⟨hbuild, fun fill => by rw [hbuild]⟩

theorem build_reordered_sample :
    build { (Settings.sample : Settings Float) with
      zones := Settings.sample.zones.reverse
      climates := Settings.sample.climates.reverse
      biomes := Settings.sample.biomes.reverse } = build Settings.sample := by
  refine (build_reordered ⟨Or.inr ⟨List.reverse_perm _, ?_, ?_⟩, List.reverse_perm _,
    List.reverse_perm _, rfl⟩).1
  · simp only [Settings.sample, Settings.sampleOf, List.forall_mem_cons, List.not_mem_nil,
      false_imp_iff, implies_true, and_true]
    decide
  · refine List.pairwise_pair.mpr ?_
    decide

end Generator
end TileWorld
