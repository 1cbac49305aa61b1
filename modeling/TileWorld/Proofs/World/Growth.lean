import TileWorld.Proofs.World.Heights
import TileWorld.Proofs.World.Isolation

/-! Worlds in which one biome has grown. It keeps all of its cells, and takes others only for itself:
what lies over it in the first map lies over it in the second. -/
namespace TileWorld
variable {α : Type}

/-- Entries of one name, which are the same unless it is the name of the biome that has grown. -/
structure BiomeSettings.GrowsAt (grown : String) (e e' : String × BiomeSettings Float) : Prop where
  name : e'.1 = e.1
  selection : e'.2.selection = e.2.selection
  zones : e'.2.zones = e.2.zones
  climates : e'.2.climates = e.2.climates
  others : e.1 ≠ grown → e' = e
  grows : e.1 = grown → Grows e.2.ratio e.2.heightRange e'.2.ratio e'.2.heightRange

/-- Settings that differ in one biome, which has grown. -/
structure Settings.GrowsAt (grown : String) (s s' : Settings Float) : Prop where
  declared : grown ∈ s.biomes.map Prod.fst
  biomes : List.Forall₂ (BiomeSettings.GrowsAt grown) s.biomes s'.biomes
  rest : s' = { s with biomes := s'.biomes }

/-- Biomes of one name, which are the same unless it is the name of the biome that has grown. -/
structure Biome.GrowsAt (grown : String) (b b' : Biome Float) : Prop where
  name : b'.name = b.name
  selection : b'.selection = b.selection
  zones : b'.zones = b.zones
  climates : b'.climates = b.climates
  others : b.name ≠ grown → b' = b
  grows : b.name = grown → Grows b.ratio b.heightRange b'.ratio b'.heightRange

theorem Settings.GrowsAt.sorted {grown : String} {s s' : Settings Float} (h : s.GrowsAt grown s') :
    s.sorted.GrowsAt grown s'.sorted where
  declared := ((Order.byName_perm s.biomes).map Prod.fst).mem_iff.mpr h.declared
  biomes := Order.forall₂_byName (fun _ _ he => he.name) h.biomes
  rest := by
    simp only [Settings.sorted]
    rw [h.rest]

section Roster
variable {grown : String} {s s' : Settings Float}

/-- A biome that has grown refers to the same zones and climates. -/
theorem Biome.growsAt_of_mapM {es es' : List (String × BiomeSettings Float)}
    {zoneNames climateNames : List String} {bs bs' : List (Biome Float)}
    (h : List.Forall₂ (BiomeSettings.GrowsAt grown) es es')
    (hbs : List.Forall₂ (fun e b => ∃ zoneRefs,
      e.2.zones.mapM (Directory.resolve? "zone" zoneNames) = .ok zoneRefs ∧ ∃ climateRefs,
        e.2.climates.mapM (Directory.resolve? "climate" climateNames) = .ok climateRefs ∧
          (⟨e.1, e.2.label, e.2.ratio, e.2.selection, e.2.heightRange, e.2.painter, zoneRefs,
            climateRefs⟩ : Biome Float) = b) es bs)
    (hbs' : List.Forall₂ (fun e b => ∃ zoneRefs,
      e.2.zones.mapM (Directory.resolve? "zone" zoneNames) = .ok zoneRefs ∧ ∃ climateRefs,
        e.2.climates.mapM (Directory.resolve? "climate" climateNames) = .ok climateRefs ∧
          (⟨e.1, e.2.label, e.2.ratio, e.2.selection, e.2.heightRange, e.2.painter, zoneRefs,
            climateRefs⟩ : Biome Float) = b) es' bs') :
    List.Forall₂ (Biome.GrowsAt grown) bs bs' := by
  refine forall₂_square h hbs hbs' ?_
  rintro e e' _ _ he ⟨zoneRefs, hzones, climateRefs, hclimates, rfl⟩
    ⟨zoneRefs', hzones', climateRefs', hclimates', rfl⟩
  obtain rfl : zoneRefs' = zoneRefs := Except.ok.inj (hzones'.symm.trans (he.zones ▸ hzones))
  obtain rfl : climateRefs' = climateRefs :=
    Except.ok.inj (hclimates'.symm.trans (he.climates ▸ hclimates))
  refine ⟨he.name, he.selection, rfl, rfl, fun hname => ?_, he.grows⟩
  rw [he.others hname]

/-- Rosters of settings that differ in one biome, which has grown, differ in it only. -/
theorem Roster.resolve?_growsAt (h : s.GrowsAt grown s') :
    Agree (fun r r' => r' = { r with biomes := r'.biomes } ∧
        List.Forall₂ (Biome.GrowsAt grown) r.biomes.toList r'.biomes.toList)
      (Roster.resolve? s) (Roster.resolve? s') := by
  intro r r' hr hr'
  have hnames : s'.biomes.map Prod.fst = s.biomes.map Prod.fst :=
    map_eq_map_of_forall₂ h.biomes fun e e' he => he.name
  have hzones : s'.zones = s.zones := by rw [h.rest]
  have hclimates : s'.climates = s.climates := by rw [h.rest]
  simp only [resolve?, link?, bind_eq_ok, hnames, hzones, hclimates] at hr hr'
  obtain ⟨_, -, _, -, _, -, hr⟩ := hr
  obtain ⟨_, -, _, -, _, -, hr'⟩ := hr'
  by_cases hempty : s.zones.isEmpty = true
  · simp [hempty] at hr
  by_cases htotal : Scalar.le (Scalar.sum (s.zones.map (·.2.heightWeight))) 0.0 = true
  · simp [hempty, htotal] at hr
  simp only [hempty, htotal, Bool.false_eq_true, if_false, bind_eq_ok, pure_eq_ok,
    Except.ok.injEq] at hr hr'
  obtain ⟨zones, hzones, climates, hclimates, bs, hbs, rfl⟩ := hr
  obtain ⟨zones', hzones', climates', hclimates', bs', hbs', rfl⟩ := hr'
  obtain rfl := Except.ok.inj (hzones.symm.trans hzones')
  obtain rfl := Except.ok.inj (hclimates.symm.trans hclimates')
  rw [mapM_eq_ok] at hbs hbs'
  simp only [bind_eq_ok, Except.ok.injEq] at hbs hbs'
  have hgrows := Biome.growsAt_of_mapM h.biomes hbs hbs'
  have hzoneRefs : bs'.map (·.zones) = bs.map (·.zones) :=
    map_eq_map_of_forall₂ hgrows fun b b' hb => hb.zones
  have hclimateRefs : bs'.map (·.climates) = bs.map (·.climates) :=
    map_eq_map_of_forall₂ hgrows fun b b' hb => hb.climates
  refine ⟨?_, hgrows⟩
  simp only [hzoneRefs, hclimateRefs]

end Roster

namespace Generator

section Biomes
variable [Scalar α] (g : Generator α) (biomes : Array (Biome α))

/-- Zones are stacked without regard to biomes. -/
theorem stack?_biomes : ({ g with biomes } : Generator α).stack? =
    (fun g : Generator α => { g with biomes }) <$> g.stack? := by
  simp only [stack?, map_bind, map_pure]

/-- Climates are spread without regard to biomes. -/
theorem spread?_biomes : ({ g with biomes } : Generator α).spread? =
    (fun g : Generator α => { g with biomes }) <$> g.spread? :=
  spread?_map (fun g => { g with biomes }) g (fun _ _ => rfl) ⟨rfl, rfl, rfl⟩ fun _ _ => rfl

theorem layOut_biomes : (({ g with biomes } : Generator α).stack? >>= fun g => g.spread?) =
    (fun g : Generator α => { g with biomes }) <$> (g.stack? >>= fun g => g.spread?) := by
  rw [stack?_biomes, bind_map_left, map_bind]
  exact bind_congr fun g => spread?_biomes g biomes

theorem biomes_of_layOut {g laid : Generator α} (h : (g.stack? >>= fun g => g.spread?) = .ok laid) :
    laid.biomes = g.biomes := by
  have hsame := layOut_biomes g g.biomes
  rw [h] at hsame
  exact congrArg (·.biomes) (Except.ok.inj hsame)

end Biomes

section Build
variable {grown : String} {s s' : Settings Float}

/-- The constructor lays out the same world around the biome that has grown. -/
theorem build_biomes_grown (h : s.GrowsAt grown s') :
    Agree (fun g g' : Generator Float => g' = { g with biomes := g'.biomes } ∧
        List.Forall₂ (Biome.GrowsAt grown) g.biomes.toList g'.biomes.toList)
      (build s).outcome (build s').outcome := by
  rw [build_outcome, build_outcome]
  refine (Roster.resolve?_growsAt h.sorted).bind fun r r' ⟨hrest, hbiomes⟩ g g' hg hg' => ?_
  have hroster : ofRoster s'.sorted r' = { ofRoster s.sorted r with biomes := r'.biomes } := by
    rw [hrest, h.sorted.rest]
    rfl
  have hold : g.biomes = r.biomes := biomes_of_layOut hg
  have hnew : g'.biomes = r'.biomes := biomes_of_layOut hg'
  rw [hroster, layOut_biomes, hg] at hg'
  refine ⟨?_, by rwa [hold, hnew]⟩
  rw [hnew]
  exact (Except.ok.inj hg').symm

/-- Generators that differ in the biome at one position, which has grown. -/
structure GrowsAt (k : Nat) (g g' : Generator Float) : Prop where
  rest : g' = { g with biomes := g'.biomes }
  others : ∀ j, j ≠ k → g'.biomes[j]? = g.biomes[j]?
  grows : Option.Rel (fun b b' : Biome Float => b'.selection = b.selection ∧
    Grows b.ratio b.heightRange b'.ratio b'.heightRange) g.biomes[k]? g'.biomes[k]?

/-- The biome that has grown is found at one position by both constructors. -/
theorem build_growsAt {g g' : Generator Float} (h : s.GrowsAt grown s')
    (hg : (build s).outcome = .ok g) (hg' : (build s').outcome = .ok g') :
    ∃ k, g.biomeId? grown = .ok k ∧ g'.biomeId? grown = .ok k ∧ GrowsAt k g g' := by
  obtain ⟨hrest, hbiomes⟩ := build_biomes_grown h g g' hg hg'
  have hnames : g'.biomes.toList.map (·.name) = g.biomes.toList.map (·.name) :=
    map_eq_map_of_forall₂ hbiomes fun b b' hb => hb.name
  obtain ⟨roster, rows, hroster, -, zones, stream, hg, -⟩ := build_ok hg
  have hsettings : g.biomes.toList.map (·.name) = s.sorted.biomes.map Prod.fst := by
    rw [hg]
    exact map_eq_map_of_forall₂ hroster.biomes fun e b hb => hb.1
  have hnodup : (g.biomes.toList.map (·.name)).Nodup :=
    hsettings ▸ Roster.nodup_of_checkUnique hroster.biomesUnique
  obtain ⟨k, hk⟩ : ∃ k, g.biomeId? grown = .ok k :=
    Directory.exists_resolve? (hsettings ▸ h.sorted.declared)
  have hname := (Directory.resolve?_eq_ok hnodup).mp hk
  refine ⟨k, hk, ?_, hrest, fun j hj => ?_, ?_⟩
  · rw [biomeId?, hnames]
    exact hk
  · have hat := forall₂_rel_getElem? hbiomes j
    rw [Array.getElem?_toList, Array.getElem?_toList] at hat
    generalize hb : g.biomes[j]? = b at hat ⊢
    generalize g'.biomes[j]? = b' at hat ⊢
    cases hat with
    | none => rfl
    | some hgrows =>
      refine congrArg some (hgrows.others fun hgrown => hj ?_)
      have hat : (g.biomes.toList.map (·.name))[j]? = some grown := by
        rw [List.getElem?_map, Array.getElem?_toList, hb, ← hgrown]
        rfl
      have hlt : j < (g.biomes.toList.map (·.name)).length := (List.getElem?_eq_some_iff.mp hat).1
      exact (List.getElem?_inj hlt hnodup).mp (hat.trans hname.symm)
  · have hat := forall₂_rel_getElem? hbiomes k
    rw [Array.getElem?_toList, Array.getElem?_toList] at hat
    rw [List.getElem?_map, Array.getElem?_toList] at hname
    generalize g.biomes[k]? = b at hat hname ⊢
    generalize g'.biomes[k]? = b' at hat ⊢
    cases hat with
    | none => exact .none
    | some hgrows => exact .some ⟨hgrows.selection, hgrows.grows (Option.some.inj hname)⟩

end Build

/-- A position that is left as it was, or taken over by the biome at `k`. -/
def Toward (k j j' : Nat) : Prop := j' = j ∨ j' = k

namespace GrowsAt
variable {k : Nat} {g g' : Generator Float} {x y : Int}

theorem settlesAt?_others (h : GrowsAt k g g') (area : Context) {j : Nat} (hj : j ≠ k) :
    g'.settlesAt? area j x y = g.settlesAt? area j x y := by
  unfold settlesAt?
  rw [h.others j hj, h.rest]

/-- The biome that has grown settles where it settled. -/
theorem settlesAt?_grown (h : GrowsAt k g g') (hg : g.InBounds) {area : Context}
    (hsettles : g.settlesAt? area k x y = .ok true) : g'.settlesAt? area k x y = .ok true := by
  have hgrows := h.grows
  have hworld : g'.world = g.world := by rw [h.rest]
  have hfade : g'.heightTransition = g.heightTransition := by rw [h.rest]
  unfold settlesAt? at hsettles ⊢
  rw [hworld, hfade]
  generalize hb : g.biomes[k]? = b at hsettles hgrows
  generalize g'.biomes[k]? = b' at hgrows ⊢
  cases hgrows with
  | none => exact hsettles
  | some hgrows =>
    rename_i b b'
    obtain ⟨rows, hrows, hsettles⟩ := bind_eq_ok.mp hsettles
    obtain ⟨selection, hselection, hsettles⟩ := bind_eq_ok.mp hsettles
    have hmem : b ∈ g.biomes.toList := Array.mem_toList_iff.mpr (Array.mem_of_getElem? hb)
    simp only [hrows, hgrows.1, hselection, ok_bind]
    exact selects?_grown hg.height hrows hg.heightTransition (hg.biomes b hmem) hgrows.2 hsettles

/-- What lies over a cell is the same, or the biome that has grown. -/
theorem biomeOver?_toward (h : GrowsAt k g g') (hg : g.InBounds) (area : Context) (j : Nat)
    {below below' : Nat} (hbelow : Toward k below below') :
    Agree (Toward k) (g.biomeOver? area x y below j) (g'.biomeOver? area x y below' j) := by
  intro u u' hu hu'
  simp only [biomeOver?, bind_eq_ok, pure_eq_ok, Except.ok.injEq] at hu hu'
  obtain ⟨settles, hsettles, rfl⟩ := hu
  obtain ⟨settles', hsettles', rfl⟩ := hu'
  by_cases hj : j = k
  · subst hj
    cases settles' with
    | true => exact .inr rfl
    | false =>
      have hnot : settles = false := by
        cases settles with
        | false => rfl
        | true => exact Except.ok.inj ((h.settlesAt?_grown hg hsettles).symm.trans hsettles')
      subst hnot
      exact hbelow
  · rw [h.settlesAt?_others area hj, hsettles] at hsettles'
    obtain rfl := Except.ok.inj hsettles'
    cases settles with
    | true => exact .inl rfl
    | false => exact hbelow

theorem biomeIn?_toward (h : GrowsAt k g g') (hg : g.InBounds) (area : Context)
    (p : Producer Float) (biomes : List Nat) :
    Agree (Toward k) (g.biomeIn? area p biomes x y) (g'.biomeIn? area p biomes x y) := by
  have hproducer : g'.producerAt? area p x y = g.producerAt? area p x y := by
    rw [h.rest]
    rfl
  unfold biomeIn?
  rw [hproducer]
  refine .bind_same fun below => ?_
  exact Agree.foldlM (fun j _ _ _ hover => h.biomeOver?_toward hg area j hover) (.inl rfl)

theorem climateOver?_toward (h : GrowsAt k g g') (hg : g.InBounds) (z : Zone Float)
    (climate : Nat × Interval) {below below' : Nat} (hbelow : Toward k below below') :
    Agree (Toward k) (g.climateOver? z x y below climate) (g'.climateOver? z x y below' climate) := by
  have hclimates : g'.climates = g.climates := by rw [h.rest]
  have hworld : g'.world = g.world := by rw [h.rest]
  unfold climateOver?
  rw [hclimates, hworld]
  cases g.climates[climate.1]? with
  | none => exact .error _ _
  | some c =>
    refine .bind_same fun area => ?_
    split_ifs
    · refine .bind_same fun inside => ?_
      cases inside with
      | true => exact h.biomeIn?_toward hg area c.producer c.biomes
      | false => exact .ok hbelow
    · exact .ok hbelow

/-- A cell keeps its biome, or the biome that has grown takes it. -/
theorem biomeAt?_toward (h : GrowsAt k g g') (hg : g.InBounds) :
    Agree (Toward k) (g.biomeAt? x y) (g'.biomeAt? x y) := by
  have hzones : g'.zones = g.zones := by rw [h.rest]
  have hworld : g'.world = g.world := by rw [h.rest]
  unfold biomeAt?
  rw [hzones]
  cases g.zones.find? (·.rows.contains y) with
  | none => exact .error _ _
  | some z =>
    simp only [biomeOn?, hworld]
    refine (h.biomeIn?_toward hg _ z.producer z.biomes).bind fun below below' hbelow => ?_
    exact Agree.foldlM (fun climate _ _ _ hover => h.climateOver?_toward hg z climate hover) hbelow

end GrowsAt

/-- Growth is monotone. Where one biome is given a ratio that is no less over heights that reach no
less far, every cell that held it still holds it, and every other cell holds what it held, or the
biome that has grown. -/
theorem grown_biome_keeps_cells {grown : String} {s s' : Settings Float} {g g' : Generator Float}
    (hs : s.InBounds) (h : s.GrowsAt grown s') (hg : (build s).outcome = .ok g)
    (hg' : (build s').outcome = .ok g') :
    ∃ k : Nat, g.biomeId? grown = .ok k ∧ g'.biomeId? grown = .ok k ∧
      ∀ map map', g.biomeMap.outcome = .ok map → g'.biomeMap.outcome = .ok map' → ∀ x y,
        (map.get? x y = .ok (.int k) → map'.get? x y = .ok (.int k)) ∧
          (map'.get? x y = map.get? x y ∨ map'.get? x y = .ok (.int k)) := by
  obtain ⟨k, hk, hk', hgrows⟩ := build_growsAt h hg hg'
  refine ⟨k, hk, hk', fun map map' hmap hmap' x y => ?_⟩
  have hworld : g'.world = g.world := by rw [hgrows.rest]
  obtain ⟨-, hwidth, hheight⟩ := biomeMap_charted hg hmap
  obtain ⟨-, hwidth', hheight'⟩ := biomeMap_charted hg' hmap'
  rw [hworld, ← hwidth, Nat.cast_inj] at hwidth'
  rw [hworld, ← hheight, Nat.cast_inj] at hheight'
  by_cases hinside : 0 ≤ x ∧ x < map.width ∧ 0 ≤ y ∧ y < map.height
  · obtain ⟨hx, hxw, hy, hyh⟩ := hinside
    rw [hwidth] at hxw
    rw [hheight] at hyh
    obtain ⟨j, hj, hcell⟩ := followsRule_of_biomeMap hg hmap x y hx hxw hy hyh
    rw [← hworld] at hxw hyh
    obtain ⟨j', hj', hcell'⟩ := followsRule_of_biomeMap hg' hmap' x y hx hxw hy hyh
    rw [hcell, hcell']
    rcases hgrows.biomeAt?_toward (build_inBounds hs hg) j j' hj hj' with rfl | rfl
    · exact ⟨id, .inl rfl⟩
    · exact ⟨fun _ => rfl, .inr rfl⟩
  · have hnone : map.cell? x y = none := Grid.cell?_eq_none.mpr hinside
    have hnone' : map'.cell? x y = none := by
      rw [Grid.cell?_eq_none, hwidth', hheight']
      exact hinside
    have hsame : map'.get? x y = map.get? x y := by
      rw [Grid.get?, Grid.get?, hnone, hnone', hwidth', hheight']
    rw [hsame]
    exact ⟨id, .inl rfl⟩

end Generator

section Sample
variable [Scalar α]

/-- A sample whose stone keeps to greater heights, and settles nowhere. -/
def Settings.sparse : Settings α :=
  { sample with
    biomes := [
      ("moss", ⟨(0, 255, 0), 1.0, .const 0.5, Span.full, ["high"], ["desert"], .ignore⟩),
      ("stone", ⟨(9, 9, 9), 0.125, .const 0.25, ⟨0.5, 1.0⟩, [], ["tundra"], .ignore⟩)] }

theorem Settings.sparse_named : (sparse : Settings α).NamedAsSample := ⟨rfl, rfl, rfl⟩

end Sample

/-- Stone reaches further in the sample. -/
theorem Settings.sparse_growsAt : (sparse : Settings Float).GrowsAt "stone" sample where
  declared := by simp [sparse]
  biomes := by
    refine .cons ⟨rfl, rfl, rfl, rfl, fun _ => rfl, fun h => absurd h (by decide)⟩
      (.cons ⟨rfl, rfl, rfl, rfl, fun h => absurd rfl h, fun _ => ?_⟩ .nil)
    exact ⟨by decide, by decide, by decide, ⟨by decide, by decide⟩, ⟨by decide, by decide⟩,
      by decide, by decide, by decide⟩
  rest := rfl

namespace Generator

theorem exists_map_sparse : ∃ (g : Generator Float) (map : Grid),
    (build Settings.sparse).outcome = .ok g ∧ g.biomeMap.outcome = .ok map := by
  obtain ⟨g, map, hg, hmap⟩ :=
    exists_map_of_namedAsSample Settings.sparse_named (by decide +kernel)
  exact ⟨g, map, hg, biomeMap_outcome.mpr hmap⟩

theorem grown_biome_keeps_cells_sample : ∃ (g g' : Generator Float) (map map' : Grid) (k : Nat),
    (build Settings.sparse).outcome = .ok g ∧ g.biomeMap.outcome = .ok map ∧
      (build Settings.sample).outcome = .ok g' ∧ g'.biomeMap.outcome = .ok map' ∧
      g.biomeId? "stone" = .ok k ∧ ∀ x y,
        (map.get? x y = .ok (.int k) → map'.get? x y = .ok (.int k)) ∧
          (map'.get? x y = map.get? x y ∨ map'.get? x y = .ok (.int k)) := by
  obtain ⟨g, map, hg, hmap⟩ := exists_map_sparse
  obtain ⟨g', map', hg', hmap'⟩ := exists_map_sample
  have hmap' := biomeMap_outcome.mpr hmap'
  obtain ⟨k, hk, -, hcells⟩ :=
    grown_biome_keeps_cells (by decide) Settings.sparse_growsAt hg hg'
  exact ⟨g, g', map, map', k, hg, hmap, hg', hmap', hk, hcells map map' hmap hmap'⟩

end Generator
end TileWorld
