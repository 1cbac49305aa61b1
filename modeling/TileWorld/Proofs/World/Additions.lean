import TileWorld.Proofs.World.References
import TileWorld.Proofs.World.Renaming

/-! Settings with one more entry that nothing refers to. Its name has a place among the others, so that
entries behind it move; everything else about them stays. -/
namespace TileWorld
variable {α : Type}

/-- Settings with one more biome, which no zone or climate is to hold, or one more climate, which no
zone is to hold and whose producer is made of biomes declared already. -/
inductive Settings.Extends (s : Settings α) : Settings α → Prop
  | biome {name : String} {b : BiomeSettings α} {biomes : List (String × BiomeSettings α)}
      (hname : name ∉ s.biomes.map Prod.fst) (hzones : b.zones = []) (hclimates : b.climates = [])
      (hperm : biomes.Perm ((name, b) :: s.biomes)) : s.Extends { s with biomes }
  | climate {name : String} {c : ClimateSettings α} {climates : List (String × ClimateSettings α)}
      (hname : name ∉ s.climates.map Prod.fst) (hzones : c.zones = [])
      (hsurface : c.producer.surfaceBiome ∈ s.biomes.map Prod.fst)
      (hcave : c.producer.caveBiome ∈ s.biomes.map Prod.fst)
      (hperm : climates.Perm ((name, c) :: s.climates)) : s.Extends { s with climates }

/-- A biome that refers to nothing. -/
def BiomeSettings.Aloof (b : BiomeSettings α) : Prop := b.zones = [] ∧ b.climates = []

/-- A climate that refers to nothing but biomes of given names. -/
def ClimateSettings.Aloof (names : List String) (c : ClimateSettings α) : Prop :=
  c.zones = [] ∧ c.producer.surfaceBiome ∈ names ∧ c.producer.caveBiome ∈ names

/-- Settings in order, with new entries put in among their biomes and their climates. -/
structure Settings.Widens (s s' : Settings α) (biomesAt biomesNew climatesAt climatesNew : Nat) :
    Prop where
  biomes : Inserted (fun e => e.2.Aloof) biomesAt biomesNew s.biomes s'.biomes
  climates : Inserted (fun e => e.2.Aloof (s.biomes.map Prod.fst)) climatesAt climatesNew
    s.climates s'.climates
  biomeNames : (s'.biomes.map Prod.fst).Nodup
  climateNames : (s'.climates.map Prod.fst).Nodup
  rest : s' = { s with climates := s'.climates, biomes := s'.biomes }

theorem Order.nodup_byName {β : Type} {xs ys : List (String × β)} {e : String × β}
    (hperm : ys.Perm (e :: xs)) (hnew : e.1 ∉ xs.map Prod.fst) (hnames : (xs.map Prod.fst).Nodup) :
    ((byName ys).map Prod.fst).Nodup := by
  have hall := ((byName_perm ys).trans hperm).map Prod.fst
  exact hall.nodup_iff.mpr (List.nodup_cons.mpr ⟨hnew, hnames⟩)

/-- One entry more is put in at one place. -/
theorem Settings.Extends.widens [Scalar α] {s s' : Settings α} (h : s.Extends s')
    (hbiomes : (s.biomes.map Prod.fst).Nodup) (hclimates : (s.climates.map Prod.fst).Nodup) :
    ∃ p m q n, s.sorted.Widens s'.sorted p m q n ∧ m ≤ 1 := by
  cases h with
  | @biome name b biomes hname hzones hrefs hperm =>
    obtain ⟨before, after, hold, hnew⟩ := Order.byName_insert hperm hbiomes
    refine ⟨before.length, 1, 0, 0, ⟨?_, Inserted.nothing _ _, ?_,
      Order.nodup_byName_iff.mpr hclimates, rfl⟩, le_rfl⟩
    · simp only [sorted, hold, hnew]
      exact Inserted.one ⟨hzones, hrefs⟩
    · exact Order.nodup_byName hperm hname hbiomes
  | @climate name c climates hname hzones hsurface hcave hperm =>
    obtain ⟨before, after, hold, hnew⟩ := Order.byName_insert hperm hclimates
    have hnames {n : String} (hn : n ∈ s.biomes.map Prod.fst) :
        n ∈ s.sorted.biomes.map Prod.fst :=
      ((Order.byName_perm s.biomes).map Prod.fst).mem_iff.mpr hn
    refine ⟨0, 0, before.length, 1, ⟨Inserted.nothing _ _, ?_,
      Order.nodup_byName_iff.mpr hbiomes, ?_, rfl⟩, zero_le_one⟩
    · simp only [sorted, hold, hnew]
      exact Inserted.one ⟨hzones, hnames hsurface, hnames hcave⟩
    · exact Order.nodup_byName hperm hname hclimates

section Names
variable {σ : Nat → Nat} {names names' : List String}

theorem Directory.resolve?_moved {kind name : String} (hnames : names.Nodup) (hnames' : names'.Nodup)
    (hmoved : ∀ k, names'[σ k]? = names[k]?) {k : Nat} (h : resolve? kind names name = .ok k) :
    resolve? kind names' name = .ok (σ k) := by
  rw [resolve?_eq_ok hnames] at h
  rw [resolve?_eq_ok hnames', hmoved, h]

theorem Producer.resolve?_moved (hnames : names.Nodup) (hnames' : names'.Nodup)
    (hmoved : ∀ k, names'[σ k]? = names[k]?) {s : ProducerSettings α} {p : Producer α}
    (h : resolve? names s = .ok p) : resolve? names' s = .ok (p.renamed σ) := by
  simp only [resolve?, bind_eq_ok, pure_eq_ok, Except.ok.injEq] at h
  obtain ⟨surface, hsurface, cave, hcave, rfl⟩ := h
  rw [resolve?, Directory.resolve?_moved hnames hnames' hmoved hsurface,
    Directory.resolve?_moved hnames hnames' hmoved hcave]
  rfl

end Names

namespace Settings.Widens
variable {s s' : Settings α} {p m q n : Nat}

theorem zones_eq (hw : s.Widens s' p m q n) : s'.zones = s.zones := by rw [hw.rest]

theorem biomeName (hw : s.Widens s' p m q n) (k : Nat) :
    (s'.biomes.map Prod.fst)[shifted p m k]? = (s.biomes.map Prod.fst)[k]? := by
  rw [List.getElem?_map, List.getElem?_map, hw.biomes.getElem?]

theorem climateName (hw : s.Widens s' p m q n) (k : Nat) :
    (s'.climates.map Prod.fst)[shifted q n k]? = (s.climates.map Prod.fst)[k]? := by
  rw [List.getElem?_map, List.getElem?_map, hw.climates.getElem?]

section Roster
variable [Scalar α] {r r' : Roster α}

theorem resolveProducer? (hw : s.Widens s' p m q n) (hr : Roster.Resolves s r)
    {t : ProducerSettings α} {producer : Producer α}
    (h : Producer.resolve? (s.biomes.map Prod.fst) t = .ok producer) :
    Producer.resolve? (s'.biomes.map Prod.fst) t = .ok (producer.renamed (shifted p m)) :=
  Producer.resolve?_moved (Roster.nodup_of_checkUnique hr.biomesUnique) hw.biomeNames hw.biomeName h

theorem resolveClimates? (hw : s.Widens s' p m q n) (hr : Roster.Resolves s r) {names : List String}
    {ks : List Nat}
    (h : names.mapM (Directory.resolve? "climate" (s.climates.map Prod.fst)) = .ok ks) :
    names.mapM (Directory.resolve? "climate" (s'.climates.map Prod.fst)) =
      .ok (ks.map (shifted q n)) :=
  mapM_ok_map (fun _ _ _ hk => Directory.resolve?_moved
    (Roster.nodup_of_checkUnique hr.climatesUnique) hw.climateNames hw.climateName hk) h

/-- Settings still resolve with entries of new names that refer to what is declared. -/
theorem exists_resolve? (hw : s.Widens s' p m q n) (hr : Roster.Resolves s r) :
    ∃ r', Roster.resolve? s' = .ok r' := by
  have hzones := hw.zones_eq
  have hnothing (kind : String) (names : List String) :
      ∃ refs, ([] : List String).mapM (Directory.resolve? kind names) = .ok refs := ⟨[], rfl⟩
  refine Roster.exists_resolve? ?_ hw.climateNames hw.biomeNames ?_ ?_ ?_ ?_ ?_
  · rw [hzones]
    exact Roster.nodup_of_checkUnique hr.zonesUnique
  · rw [hzones]
    exact hr.zones_ne_nil
  · rw [hzones]
    exact hr.total_pos
  · rw [hzones]
    intro e he
    obtain ⟨z, -, -, -, -, hproducer⟩ := forall₂_exists_mem hr.zones.flip he
    exact ⟨_, hw.resolveProducer? hr hproducer⟩
  · rw [hzones]
    intro e he
    rcases hw.climates.mem_or he with he | ⟨hrefs, hsurface, hcave⟩
    · obtain ⟨c, -, -, -, -, -, hproducer, hrefs⟩ := forall₂_exists_mem hr.climates.flip he
      exact ⟨⟨_, hrefs⟩, _, hw.resolveProducer? hr hproducer⟩
    · have hnames := List.map_subset Prod.fst hw.biomes.subset
      rw [hrefs]
      exact ⟨hnothing _ _, Producer.exists_resolve? ⟨hnames hsurface, hnames hcave⟩⟩
  · rw [hzones]
    intro e he
    rcases hw.biomes.mem_or he with he | ⟨hrefs, hrefs'⟩
    · obtain ⟨b, -, -, -, -, -, -, -, hrefs, hrefs'⟩ := forall₂_exists_mem hr.biomes.flip he
      exact ⟨⟨_, hrefs⟩, _, hw.resolveClimates? hr hrefs'⟩
    · rw [hrefs, hrefs']
      exact ⟨hnothing _ _, hnothing _ _⟩

section References

/-- Entries that refer to nothing are put in among the references of biomes to climates. -/
theorem biomeClimates (hw : s.Widens s' p m q n) (hr : Roster.Resolves s r)
    (hr' : Roster.Resolves s' r') :
    Inserted (· = []) p m ((r.biomes.toList.map (·.climates)).map (List.map (shifted q n)))
      (r'.biomes.toList.map (·.climates)) := by
  have hreads (t : Settings α) (u : Roster α) (hu : Roster.Resolves t u) :
      t.biomes.mapM (fun e => e.2.climates.mapM
        (Directory.resolve? "climate" (t.climates.map Prod.fst))) =
          .ok (u.biomes.toList.map (·.climates)) := by
    rw [mapM_eq_ok, List.forall₂_map_right_iff]
    exact hu.biomes.imp fun e b hb => hb.2.2.2.2.2.2.2
  refine hw.biomes.mapM (fun e _ ks hks => hw.resolveClimates? hr hks) (fun e he ks hks => ?_)
    (hreads s r hr) (hreads s' r' hr')
  rw [he.2] at hks
  exact (Except.ok.inj hks).symm

theorem biomeZones (hw : s.Widens s' p m q n) (hr : Roster.Resolves s r)
    (hr' : Roster.Resolves s' r') :
    Inserted (· = []) p m (r.biomes.toList.map (·.zones)) (r'.biomes.toList.map (·.zones)) := by
  have hreads (t : Settings α) (u : Roster α) (hu : Roster.Resolves t u) :
      t.biomes.mapM (fun e => e.2.zones.mapM
        (Directory.resolve? "zone" (t.zones.map Prod.fst))) =
          .ok (u.biomes.toList.map (·.zones)) := by
    rw [mapM_eq_ok, List.forall₂_map_right_iff]
    exact hu.biomes.imp fun e b hb => hb.2.2.2.2.2.2.1
  rw [← List.map_id (r.biomes.toList.map (·.zones))]
  refine hw.biomes.mapM (fun e _ ks hks => ?_) (fun e he ks hks => ?_) (hreads s r hr)
    (hreads s' r' hr')
  · rw [hw.zones_eq]
    exact hks
  · rw [he.1] at hks
    exact (Except.ok.inj hks).symm

theorem climateZones (hw : s.Widens s' p m q n) (hr : Roster.Resolves s r)
    (hr' : Roster.Resolves s' r') :
    Inserted (· = []) q n (r.climates.toList.map (·.zones)) (r'.climates.toList.map (·.zones)) := by
  have hreads (t : Settings α) (u : Roster α) (hu : Roster.Resolves t u) :
      t.climates.mapM (fun e => e.2.zones.mapM
        (Directory.resolve? "zone" (t.zones.map Prod.fst))) =
          .ok (u.climates.toList.map (·.zones)) := by
    rw [mapM_eq_ok, List.forall₂_map_right_iff]
    exact hu.climates.imp fun e c hc => hc.2.2.2.2.2
  rw [← List.map_id (r.climates.toList.map (·.zones))]
  refine hw.climates.mapM (fun e _ ks hks => ?_) (fun e he ks hks => ?_) (hreads s r hr)
    (hreads s' r' hr')
  · rw [hw.zones_eq]
    exact hks
  · rw [he.1] at hks
    exact (Except.ok.inj hks).symm

end References

theorem rel_biomes (hw : s.Widens s' p m q n) (hr : Roster.Resolves s r)
    (hr' : Roster.Resolves s' r') (k : Nat) :
    Option.Rel Biome.Alike r.biomes[k]? r'.biomes[shifted p m k]? := by
  have hold := forall₂_rel_getElem? hr.biomes k
  have hnew := forall₂_rel_getElem? hr'.biomes (shifted p m k)
  rw [hw.biomes.getElem?, Array.getElem?_toList] at hnew
  rw [Array.getElem?_toList] at hold
  refine rel_square hold hnew fun e b b' _ _ hb hb' => ?_
  obtain ⟨hname, -, hratio, hselection, hrange, hpainter, -⟩ := hb
  obtain ⟨hname', -, hratio', hselection', hrange', hpainter', -⟩ := hb'
  exact ⟨hname'.trans hname.symm, hratio'.trans hratio.symm, hselection'.trans hselection.symm,
    hrange'.trans hrange.symm, hpainter'.trans hpainter.symm⟩

theorem rel_climates (hw : s.Widens s' p m q n) (hr : Roster.Resolves s r)
    (hr' : Roster.Resolves s' r') (k : Nat) :
    Option.Rel (Climate.Renames (shifted p m)) r.climates[k]? r'.climates[shifted q n k]? := by
  have hold := forall₂_rel_getElem? hr.climates k
  have hnew := forall₂_rel_getElem? hr'.climates (shifted q n k)
  have hbiomes := hr.climateBiomes k
  have hbiomes' := hr'.climateBiomes (shifted q n k)
  have hτ := (shifted_strictMono q n).injective
  rw [(hw.biomeClimates hr hr').referrers, referrers_map hτ] at hbiomes'
  rw [hw.climates.getElem?, Array.getElem?_toList] at hnew
  rw [Array.getElem?_toList] at hold
  refine rel_square hold hnew fun e c c' hc hc' hread hread' => ?_
  obtain ⟨hname, hshape, hweight, hdepth, hproducer, -⟩ := hread
  obtain ⟨hname', hshape', hweight', hdepth', hproducer', -⟩ := hread'
  have hmoved := (hw.resolveProducer? hr hproducer).symm.trans hproducer'
  exact ⟨hname'.trans hname.symm, hshape'.trans hshape.symm, hweight'.trans hweight.symm,
    hdepth'.trans hdepth.symm, (Except.ok.inj hmoved).symm, by rw [hbiomes' c' hc', hbiomes c hc]⟩

/-- A zone of the roster, but for its rows, which are not stacked yet. -/
theorem zone_renamed (hw : s.Widens s' p m q n) (hr : Roster.Resolves s r)
    (hr' : Roster.Resolves s' r') {k : Nat} {z z' : Zone α} (hz : r.zones[k]? = some z)
    (hz' : r'.zones[k]? = some z') (rows : Interval) :
    { z' with rows } = { z.renamed (shifted p m) (shifted q n) with rows } := by
  obtain ⟨e, he, hname, hweight, hsize, hproducer⟩ := forall₂_getElem? hr.zones hz
  obtain ⟨e', he', hname', hweight', hsize', hproducer'⟩ := forall₂_getElem? hr'.zones hz'
  rw [hw.zones_eq] at he' hweight'
  obtain rfl : e = e' := Option.some.inj (he.symm.trans he')
  have hmoved := (hw.resolveProducer? hr hproducer).symm.trans hproducer'
  have hclimates : z'.climates = z.climates.map (Prod.map (shifted q n) id) := by
    rw [hr'.zoneClimates k z' hz', hr.zoneClimates k z hz, (hw.climateZones hr hr').referrers,
      List.map_map, List.map_map]
    rfl
  have hbiomes : z'.biomes = z.biomes.map (shifted p m) := by
    rw [hr'.zoneBiomes k z' hz', hr.zoneBiomes k z hz, (hw.biomeZones hr hr').referrers]
  obtain ⟨name, weight, size, producer, climates, biomes, rows₀⟩ := z
  obtain ⟨name', weight', size', producer', climates', biomes', rows₀'⟩ := z'
  simp only [Zone.renamed, Zone.mk.injEq, and_true]
  exact ⟨hname'.trans hname.symm, hweight'.trans hweight.symm, hsize'.trans hsize.symm,
    (Except.ok.inj hmoved).symm, hclimates, hbiomes⟩

theorem stacked_renamed (hw : s.Widens s' p m q n) (hr : Roster.Resolves s r)
    (hr' : Roster.Resolves s' r') (rows : List Interval) :
    (Generator.stacked s' r' rows).zones =
      (Generator.stacked s r rows).zones.map (Zone.renamed (shifted p m) (shifted q n)) := by
  refine List.ext_getElem? fun k => ?_
  rw [List.getElem?_map, Generator.stacked, Generator.stacked, List.getElem?_zipWith,
    List.getElem?_zipWith]
  have hold := forall₂_rel_getElem? hr.zones k
  have hnew := forall₂_rel_getElem? hr'.zones k
  rw [hw.zones_eq] at hnew
  have hzones : Option.Rel (fun z z' => ∀ rows, { z' with rows } =
      { z.renamed (shifted p m) (shifted q n) with rows }) r.zones[k]? r'.zones[k]? :=
    rel_square hold hnew fun _ z z' hz hz' _ _ => hw.zone_renamed hr hr' hz hz'
  generalize r.zones[k]? = z at hzones ⊢
  generalize r'.zones[k]? = z' at hzones ⊢
  cases hzones with
  | none => rfl
  | some hzone =>
    cases rows[k]? with
    | none => rfl
    | some rows => exact congrArg some (hzone rows)

theorem stack_eq (hw : s.Widens s' p m q n) (hr : Roster.Resolves s r)
    (hr' : Roster.Resolves s' r') :
    (r'.zones.map fun z => (z.name, z.heightWeight)) =
      r.zones.map fun z => (z.name, z.heightWeight) := by
  have hreads (u : Roster α) (zones : List (String × ZoneSettings α)) (total : α)
      (hu : List.Forall₂ (fun e z => z.name = e.1 ∧ z.heightWeight = e.2.heightWeight / total)
        zones u.zones) : (u.zones.map fun z => (z.name, z.heightWeight)) =
          zones.map fun e => (e.1, e.2.heightWeight / total) :=
    map_eq_map_of_forall₂ hu fun e z hz => Prod.ext hz.1 hz.2
  have hweights := hw.zones_eq
  rw [hreads r s.zones _ (hr.zones.imp fun e z hz => ⟨hz.1, hz.2.1⟩),
    hreads r' s'.zones _ (hr'.zones.imp fun e z hz => ⟨hz.1, hz.2.1⟩), hw.zones_eq]

end Roster

end Settings.Widens

namespace Generator
variable [Scalar α] {s s' : Settings α} {g : Generator α}

/-- What is built from wider settings are the same zones with the same climates over the same columns,
under positions that moved apart. -/
theorem exists_build_widened {p m q n : Nat} (hw : s.sorted.Widens s'.sorted p m q n)
    (hg : (build s).outcome = .ok g) :
    ∃ g', (build s').outcome = .ok g' ∧ g.Renames (shifted p m) (shifted q n) g' ∧
      g'.zones = g.zones.map (Zone.renamed (shifted p m) (shifted q n)) := by
  rw [build_outcome] at hg ⊢
  obtain ⟨r, hresolve, hg⟩ := bind_eq_ok.mp hg
  obtain ⟨g₁, hstack, hspread⟩ := bind_eq_ok.mp hg
  obtain ⟨rows, hrows, hg₁⟩ := bind_eq_ok.mp hstack
  obtain rfl : stacked s.sorted r rows = g₁ := Except.ok.inj hg₁
  have hr := Roster.resolve?_ok hresolve
  obtain ⟨r', hresolve'⟩ := hw.exists_resolve? hr
  have hr' := Roster.resolve?_ok hresolve'
  have hworld : s'.sorted.world = s.sorted.world := by rw [hw.rest]
  have hrows' : Layout.stack? s'.sorted.world.height 0
      (r'.zones.map fun z => (z.name, z.heightWeight)) = .ok rows := by
    rw [hw.stack_eq hr hr', hworld]
    exact hrows
  have hstack' : (ofRoster s'.sorted r').stack? = .ok (stacked s'.sorted r' rows) := by
    unfold stack?
    exact bind_eq_ok.mpr ⟨rows, hrows', rfl⟩
  have hrenames : (stacked s.sorted r rows).Renames (shifted p m) (shifted q n)
      (stacked s'.sorted r' rows) := by
    have hclimates := hw.rel_climates hr hr'
    have hbiomes := hw.rel_biomes hr hr'
    refine ⟨hworld, ?_, ?_, ?_, hclimates, hbiomes⟩
    · show s'.sorted.spawnSize = s.sorted.spawnSize
      rw [hw.rest]
    · show s'.sorted.heightTransition = s.sorted.heightTransition
      rw [hw.rest]
    · show s'.sorted.transition.getD defaultTransition = s.sorted.transition.getD defaultTransition
      rw [hw.rest]
  have hshuffle : s'.sorted.shuffleClimates = s.sorted.shuffleClimates := by rw [hw.rest]
  have hstream : (stacked s'.sorted r' rows).stream = (stacked s.sorted r rows).stream :=
    congrArg (fun world : World => Stream.ofSeed world.seed.toNat) hworld
  obtain ⟨g', hspread', hg'⟩ :=
    hrenames.spread? (hw.stacked_renamed hr hr' rows) hshuffle hstream hspread
  exact ⟨g', by rw [hresolve', ok_bind, hstack', ok_bind, hspread'], hg'⟩

end Generator
end TileWorld
