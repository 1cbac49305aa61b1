import TileWorld.Proofs.Outcome
import TileWorld.Proofs.Settings.Order
import TileWorld.World.Entry

/-! What resolving settings yields: one entry for each declaration, every name replaced by the
position it is declared at, and for each zone and climate the positions of those that refer to it. -/
namespace TileWorld
variable {α : Type} [Scalar α]

private theorem forall₂_zipIdx {β γ δ : Type} {R : β → γ → Prop} {Q : β → δ → Prop}
    {f : γ × Nat → δ} {bs : List β} {cs : List γ} (h : List.Forall₂ R bs cs)
    (hf : ∀ b c k, R b c → Q b (f (c, k))) : List.Forall₂ Q bs (cs.zipIdx.map f) := by
  suffices ∀ start, List.Forall₂ Q bs ((cs.zipIdx start).map f) from this 0
  induction h with
  | nil => exact fun _ => List.Forall₂.nil
  | cons hbc _ ih => exact fun start => List.Forall₂.cons (hf _ _ start hbc) (ih (start + 1))

namespace Roster

/-- How a roster follows from settings that are in order. -/
structure Resolves (s : Settings α) (r : Roster α) : Prop where
  zonesUnique : checkUnique "zone" (s.zones.map Prod.fst) = .ok ()
  climatesUnique : checkUnique "climate" (s.climates.map Prod.fst) = .ok ()
  biomesUnique : checkUnique "biome" (s.biomes.map Prod.fst) = .ok ()
  zones_ne_nil : s.zones ≠ []
  total_pos : Scalar.le (Scalar.sum (s.zones.map (·.2.heightWeight))) 0.0 = false
  zones : List.Forall₂ (fun e z => z.name = e.1 ∧
      z.heightWeight = e.2.heightWeight / Scalar.sum (s.zones.map (·.2.heightWeight)) ∧
      z.terrainSize = e.2.terrainSize ∧
      Producer.resolve? (s.biomes.map Prod.fst) e.2.producer = .ok z.producer)
    s.zones r.zones
  climates : List.Forall₂ (fun e c => c.name = e.1 ∧ c.shape = e.2.shape ∧
      c.widthWeight = e.2.widthWeight ∧ c.depth = e.2.depth ∧
      Producer.resolve? (s.biomes.map Prod.fst) e.2.producer = .ok c.producer ∧
      e.2.zones.mapM (Directory.resolve? "zone" (s.zones.map Prod.fst)) = .ok c.zones)
    s.climates r.climates.toList
  biomes : List.Forall₂ (fun e b => b.name = e.1 ∧ b.label = e.2.label ∧ b.ratio = e.2.ratio ∧
      b.selection = e.2.selection ∧ b.heightRange = e.2.heightRange ∧ b.painter = e.2.painter ∧
      e.2.zones.mapM (Directory.resolve? "zone" (s.zones.map Prod.fst)) = .ok b.zones ∧
      e.2.climates.mapM (Directory.resolve? "climate" (s.climates.map Prod.fst)) = .ok b.climates)
    s.biomes r.biomes.toList
  zoneClimates : ∀ k z, r.zones[k]? = some z →
    z.climates = (referrers (r.climates.toList.map (·.zones)) k).map (·, ⟨0, 0⟩)
  zoneBiomes : ∀ k z, r.zones[k]? = some z → z.biomes = referrers (r.biomes.toList.map (·.zones)) k
  climateBiomes : ∀ k c, r.climates[k]? = some c →
    c.biomes = referrers (r.biomes.toList.map (·.climates)) k

theorem checkUnique_of_nodup {kind : String} {names : List String} (h : names.Nodup) :
    checkUnique kind names = .ok () := by
  rw [checkUnique, (Order.repeated_eq_nil_iff names).mpr h]

theorem nodup_of_checkUnique {kind : String} {names : List String}
    (h : checkUnique kind names = .ok ()) : names.Nodup := by
  rw [← Order.repeated_eq_nil_iff]
  unfold checkUnique at h
  cases hnames : Order.repeated names with
  | nil => rfl
  | cons name rest => simp [hnames] at h

theorem checkUnique_eq_of_perm {kind : String} {names names' : List String}
    (h : names'.Perm names) : checkUnique kind names' = checkUnique kind names := by
  rw [checkUnique, checkUnique, Order.repeated_eq_of_perm h]

theorem resolve?_of_nodup {s : Settings α} (hz : (s.zones.map Prod.fst).Nodup)
    (hc : (s.climates.map Prod.fst).Nodup) (hb : (s.biomes.map Prod.fst).Nodup) :
    resolve? s = link? s := by
  rw [resolve?, checkUnique_of_nodup hz, checkUnique_of_nodup hc, checkUnique_of_nodup hb]
  rfl

theorem resolve?_ok {s : Settings α} {r : Roster α} (h : resolve? s = .ok r) : Resolves s r := by
  simp only [resolve?, link?, bind_eq_ok] at h
  obtain ⟨_, hz, _, hc, _, hb, h⟩ := h
  split_ifs at h with hempty htotal htotal
  · simp at h
  · simp at h
  · simp at h
  simp only [bind_eq_ok, pure_eq_ok, Except.ok.injEq] at h
  obtain ⟨zones, hzones, climates, hclimates, biomes, hbiomes, rfl⟩ := h
  simp only [mapM_eq_ok, bind_eq_ok, Except.ok.injEq] at hzones hclimates hbiomes
  refine ⟨hz, hc, hb, by simpa using hempty, by simpa using htotal, ?_, ?_, ?_, ?_, ?_, ?_⟩
  · refine forall₂_zipIdx hzones ?_
    rintro e _ k ⟨p, hp, rfl⟩
    exact ⟨rfl, rfl, rfl, hp⟩
  · refine forall₂_zipIdx hclimates ?_
    rintro e _ k ⟨refs, hrefs, p, hp, rfl⟩
    exact ⟨rfl, rfl, rfl, rfl, hp, mapM_eq_ok.mpr hrefs⟩
  · refine hbiomes.imp ?_
    rintro e _ ⟨zoneRefs, hzoneRefs, climateRefs, hclimateRefs, rfl⟩
    exact ⟨rfl, rfl, rfl, rfl, rfl, rfl, mapM_eq_ok.mpr hzoneRefs, mapM_eq_ok.mpr hclimateRefs⟩
  · intro k z hk
    simp only [List.getElem?_map, Option.map_eq_some_iff, List.getElem?_zipIdx] at hk
    obtain ⟨_, ⟨e, -, rfl⟩, rfl⟩ := hk
    have hrefs : (climates.zipIdx.map fun c => c.1.2.2.1) = climates.map (·.2.2.1) := by
      conv_rhs => rw [← List.zipIdx_map_fst 0 climates, List.map_map]
      rfl
    simp [Function.comp_def, hrefs]
  · intro k z hk
    simp only [List.getElem?_map, Option.map_eq_some_iff, List.getElem?_zipIdx] at hk
    obtain ⟨_, ⟨e, -, rfl⟩, rfl⟩ := hk
    simp
  · intro k c hk
    simp only [List.getElem?_toArray, List.getElem?_map, Option.map_eq_some_iff,
      List.getElem?_zipIdx] at hk
    obtain ⟨_, ⟨e, -, rfl⟩, rfl⟩ := hk
    simp

/-- Settings resolve when every name is declared once and every reference is declared. -/
theorem exists_resolve? {s : Settings α} (hz : (s.zones.map Prod.fst).Nodup)
    (hc : (s.climates.map Prod.fst).Nodup) (hb : (s.biomes.map Prod.fst).Nodup)
    (hne : s.zones ≠ []) (htotal : Scalar.le (Scalar.sum (s.zones.map (·.2.heightWeight))) 0.0 = false)
    (hzones : ∀ e ∈ s.zones, ∃ p, Producer.resolve? (s.biomes.map Prod.fst) e.2.producer = .ok p)
    (hclimates : ∀ e ∈ s.climates,
      (∃ refs, e.2.zones.mapM (Directory.resolve? "zone" (s.zones.map Prod.fst)) = .ok refs) ∧
        ∃ p, Producer.resolve? (s.biomes.map Prod.fst) e.2.producer = .ok p)
    (hbiomes : ∀ e ∈ s.biomes,
      (∃ refs, e.2.zones.mapM (Directory.resolve? "zone" (s.zones.map Prod.fst)) = .ok refs) ∧
        ∃ refs, e.2.climates.mapM (Directory.resolve? "climate" (s.climates.map Prod.fst)) =
          .ok refs) :
    ∃ r, resolve? s = .ok r := by
  have hempty : s.zones.isEmpty = false := by simpa using hne
  rw [resolve?_of_nodup hz hc hb, link?]
  simp only [hempty, htotal, Bool.false_eq_true, if_false]
  refine exists_bind_ok (exists_mapM_ok fun e he => ?_) fun zones => ?_
  · obtain ⟨p, hp⟩ := hzones e he
    exact ⟨(e.1, e.2, p), by simp only [hp, ok_bind, pure_eq_ok]⟩
  refine exists_bind_ok (exists_mapM_ok fun e he => ?_) fun climates => ?_
  · obtain ⟨⟨refs, hrefs⟩, p, hp⟩ := hclimates e he
    exact ⟨(e.1, e.2, refs, p), by simp only [hrefs, hp, ok_bind, pure_eq_ok]⟩
  refine exists_bind_ok (exists_mapM_ok fun e he => ?_) fun biomes => ⟨_, rfl⟩
  obtain ⟨⟨refs, hrefs⟩, refs', hrefs'⟩ := hbiomes e he
  exact ⟨⟨e.1, e.2.label, e.2.ratio, e.2.selection, e.2.heightRange, e.2.painter, refs, refs'⟩,
    by simp only [hrefs, hrefs', ok_bind, pure_eq_ok]⟩

end Roster
end TileWorld
