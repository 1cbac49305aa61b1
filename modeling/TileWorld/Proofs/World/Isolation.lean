import TileWorld.Proofs.World.References
import TileWorld.Proofs.World.Positions
import TileWorld.Proofs.World.Renaming

/-! What is said of one zone stays in its rows. Other producers, climates and biomes on it change no
cell of another zone: zones share what stands at a position, and none of it belongs to a zone. -/
namespace TileWorld
variable {α : Type}

/-- Lists of zones that agree but for one zone. -/
def SameBut (zone : String) (names names' : List String) : Prop :=
  names'.filter (· ≠ zone) = names.filter (· ≠ zone)

/-- Settings that differ in one zone: in its producer, and in which climates and biomes are to be
placed on it. -/
structure Settings.DifferAt (zone : String) (s s' : Settings α) : Prop where
  zones : List.Forall₂ (fun e e' => e'.1 = e.1 ∧
    e'.2 = { e.2 with producer := e'.2.producer } ∧ (e.1 ≠ zone → e'.2 = e.2)) s.zones s'.zones
  climates : List.Forall₂ (fun e e' => e'.1 = e.1 ∧ e'.2 = { e.2 with zones := e'.2.zones } ∧
    SameBut zone e.2.zones e'.2.zones) s.climates s'.climates
  biomes : List.Forall₂ (fun e e' => e'.1 = e.1 ∧ e'.2 = { e.2 with zones := e'.2.zones } ∧
    SameBut zone e.2.zones e'.2.zones) s.biomes s'.biomes
  rest : s' = { s with zones := s'.zones, climates := s'.climates, biomes := s'.biomes }

section References
variable {names : List String} {zone name : String} {k : Nat}

theorem SameBut.filter_eq {refs refs' : List String} (h : SameBut zone refs refs')
    (hname : name ≠ zone) : refs'.filter (· == name) = refs.filter (· == name) := by
  have hother (refs : List String) :
      refs.filter (· == name) = (refs.filter (· ≠ zone)).filter (· == name) := by
    rw [List.filter_filter]
    refine List.filter_congr fun ref _ => ?_
    by_cases href : ref = name
    · simp [href, hname]
    · simp [href]
  rw [hother refs, hother refs', h]

/-- Who refers to a position can be told from the references to it alone. -/
theorem referrers_congr {references references' : List (List Nat)}
    (h : List.Forall₂ (fun ks ks' => ks'.filter (· == k) = ks.filter (· == k)) references
      references') : referrers references' k = referrers references k := by
  have hkept (references : List (List Nat)) : referrers references k =
      (references.map (·.filter (· == k))).zipIdx.flatMap fun e => e.1.map fun _ => e.2 := by
    rw [List.zipIdx_map, List.flatMap_map]
    rfl
  rw [hkept, hkept, map_eq_map_of_forall₂ h fun _ _ hks => hks]

end References

namespace Settings.DifferAt
variable {zone : String} {s s' : Settings α}

theorem sorted [Scalar α] (h : s.DifferAt zone s') : s.sorted.DifferAt zone s'.sorted where
  zones := Order.forall₂_ascending (fun a b c d hab hcd => by rw [hab.2.1, hcd.2.1]) h.zones
  climates := Order.forall₂_byName (fun _ _ he => he.1) h.climates
  biomes := Order.forall₂_byName (fun _ _ he => he.1) h.biomes
  rest := by
    simp only [Settings.sorted]
    rw [h.rest]

theorem zoneNames (h : s.DifferAt zone s') : s'.zones.map Prod.fst = s.zones.map Prod.fst :=
  map_eq_map_of_forall₂ h.zones fun _ _ he => he.1

theorem climateNames (h : s.DifferAt zone s') :
    s'.climates.map Prod.fst = s.climates.map Prod.fst :=
  map_eq_map_of_forall₂ h.climates fun _ _ he => he.1

theorem biomeNames (h : s.DifferAt zone s') : s'.biomes.map Prod.fst = s.biomes.map Prod.fst :=
  map_eq_map_of_forall₂ h.biomes fun _ _ he => he.1

theorem weights (h : s.DifferAt zone s') :
    s'.zones.map (·.2.heightWeight) = s.zones.map (·.2.heightWeight) :=
  map_eq_map_of_forall₂ h.zones fun e e' he => by rw [he.2.1]

section Roster
variable [Scalar α] {r r' : Roster α}

theorem biomeClimates (h : s.DifferAt zone s') (hr : Roster.Resolves s r)
    (hr' : Roster.Resolves s' r') :
    r'.biomes.toList.map (·.climates) = r.biomes.toList.map (·.climates) := by
  refine map_eq_map_of_forall₂ (forall₂_square h.biomes hr.biomes hr'.biomes
    fun e e' b b' he hb hb' => ?_) fun _ _ hb => hb
  obtain ⟨-, -, -, -, -, -, -, hrefs⟩ := hb
  obtain ⟨-, -, -, -, -, -, -, hrefs'⟩ := hb'
  rw [h.climateNames, he.2.1] at hrefs'
  exact Except.ok.inj (hrefs'.symm.trans hrefs)

theorem rel_biomes (h : s.DifferAt zone s') (hr : Roster.Resolves s r)
    (hr' : Roster.Resolves s' r') (k : Nat) : Option.Rel Biome.Alike r.biomes[k]? r'.biomes[k]? := by
  have hall : List.Forall₂ Biome.Alike r.biomes.toList r'.biomes.toList := by
    refine forall₂_square h.biomes hr.biomes hr'.biomes fun e e' b b' he hb hb' => ?_
    obtain ⟨hname, -, hratio, hselection, hrange, hpainter, -⟩ := hb
    obtain ⟨hname', -, hratio', hselection', hrange', hpainter', -⟩ := hb'
    rw [he.2.1] at hratio' hselection' hrange' hpainter'
    exact ⟨hname'.trans (he.1.trans hname.symm), hratio'.trans hratio.symm,
      hselection'.trans hselection.symm, hrange'.trans hrange.symm, hpainter'.trans hpainter.symm⟩
  simpa only [Array.getElem?_toList] using forall₂_rel_getElem? hall k

theorem rel_climates (h : s.DifferAt zone s') (hr : Roster.Resolves s r)
    (hr' : Roster.Resolves s' r') (k : Nat) :
    Option.Rel (Climate.Renames id) r.climates[k]? r'.climates[k]? := by
  have hall : List.Forall₂ (fun c c' => c'.name = c.name ∧ c'.shape = c.shape ∧
      c'.widthWeight = c.widthWeight ∧ c'.depth = c.depth ∧ c'.producer = c.producer)
        r.climates.toList r'.climates.toList := by
    refine forall₂_square h.climates hr.climates hr'.climates fun e e' c c' he hc hc' => ?_
    obtain ⟨hname, hshape, hweight, hdepth, hproducer, -⟩ := hc
    obtain ⟨hname', hshape', hweight', hdepth', hproducer', -⟩ := hc'
    rw [he.2.1] at hshape' hweight' hdepth' hproducer'
    rw [h.biomeNames] at hproducer'
    exact ⟨hname'.trans (he.1.trans hname.symm), hshape'.trans hshape.symm,
      hweight'.trans hweight.symm, hdepth'.trans hdepth.symm,
      Except.ok.inj (hproducer'.symm.trans hproducer)⟩
  have hbiomes := hr.climateBiomes k
  have hbiomes' := hr'.climateBiomes k
  rw [h.biomeClimates hr hr'] at hbiomes'
  have hboth := forall₂_rel_getElem? hall k
  simp only [Array.getElem?_toList] at hboth
  generalize r.climates[k]? = c at hbiomes hboth ⊢
  generalize r'.climates[k]? = c' at hbiomes' hboth ⊢
  cases hboth with
  | none => exact .none
  | some hc =>
    obtain ⟨hname, hshape, hweight, hdepth, hproducer⟩ := hc
    refine .some ⟨hname, hshape, hweight, hdepth, hproducer, ?_⟩
    rw [hbiomes _ rfl, hbiomes' _ rfl, List.map_id]

/-- The biomes and climates of another zone are those it had. -/
theorem zoneReferrers (h : s.DifferAt zone s') (hr : Roster.Resolves s r)
    (hr' : Roster.Resolves s' r') {k : Nat} {name : String} (hk : (s.zones.map Prod.fst)[k]? = some name)
    (hname : name ≠ zone) :
    referrers (r'.biomes.toList.map (·.zones)) k = referrers (r.biomes.toList.map (·.zones)) k ∧
      referrers (r'.climates.toList.map (·.zones)) k =
        referrers (r.climates.toList.map (·.zones)) k := by
  have hnames := Roster.nodup_of_checkUnique hr.zonesUnique
  have hkept {refs refs' : List String} {ks ks' : List Nat} (hrefs : SameBut zone refs refs')
      (hks : refs.mapM (Directory.resolve? "zone" (s.zones.map Prod.fst)) = .ok ks)
      (hks' : refs'.mapM (Directory.resolve? "zone" (s'.zones.map Prod.fst)) = .ok ks') :
      ks'.filter (· == k) = ks.filter (· == k) := by
    rw [h.zoneNames] at hks'
    rw [Directory.filter_resolved hnames hk hks, Directory.filter_resolved hnames hk hks', hrefs.filter_eq hname]
  constructor
  · refine referrers_congr (List.forall₂_map_left_iff.mpr (List.forall₂_map_right_iff.mpr ?_))
    refine forall₂_square h.biomes hr.biomes hr'.biomes fun e e' b b' he hb hb' => ?_
    exact hkept he.2.2 hb.2.2.2.2.2.2.1 hb'.2.2.2.2.2.2.1
  · refine referrers_congr (List.forall₂_map_left_iff.mpr (List.forall₂_map_right_iff.mpr ?_))
    refine forall₂_square h.climates hr.climates hr'.climates fun e e' c c' he hc hc' => ?_
    exact hkept he.2.2 hc.2.2.2.2.2 hc'.2.2.2.2.2

/-- Other zones are what they were, but for rows, which are not stacked yet. -/
theorem zones_alike (h : s.DifferAt zone s') (hr : Roster.Resolves s r)
    (hr' : Roster.Resolves s' r') :
    List.Forall₂ (fun z z' => (z'.name = z.name ∧ z'.heightWeight = z.heightWeight) ∧
      (z.name ≠ zone → ∀ rows, { z' with rows } = { z with rows })) r.zones r'.zones := by
  have hlength : r.zones.length = r'.zones.length := by
    rw [← hr.zones.length_eq, ← hr'.zones.length_eq, h.zones.length_eq]
  refine forall₂_of_getElem? hlength fun k z z' hz hz' => ?_
  obtain ⟨e, he, hname, hweight, hsize, hproducer⟩ := forall₂_getElem? hr.zones hz
  obtain ⟨e', he', hname', hweight', hsize', hproducer'⟩ := forall₂_getElem? hr'.zones hz'
  obtain ⟨e₀, he₀, hsame, hbut, heq⟩ := forall₂_getElem? h.zones he'
  obtain rfl : e₀ = e := Option.some.inj (he₀.symm.trans he)
  rw [h.weights, hbut] at hweight'
  refine ⟨⟨hname'.trans (hsame.trans hname.symm), hweight'.trans hweight.symm⟩, fun hother rows => ?_⟩
  have hother : e₀.1 ≠ zone := hname ▸ hother
  have hk : (s.zones.map Prod.fst)[k]? = some e₀.1 := by rw [List.getElem?_map, he]; rfl
  obtain ⟨hbiomes, hclimates⟩ := h.zoneReferrers hr hr' hk hother
  rw [heq hother] at hsize' hproducer'
  rw [h.biomeNames] at hproducer'
  have hzoneBiomes : z'.biomes = z.biomes := by
    rw [hr'.zoneBiomes k z' hz', hbiomes, hr.zoneBiomes k z hz]
  have hzoneClimates : z'.climates = z.climates := by
    rw [hr'.zoneClimates k z' hz', hclimates, hr.zoneClimates k z hz]
  obtain ⟨name, weight, size, producer, climates, biomes, rows₀⟩ := z
  obtain ⟨name', weight', size', producer', climates', biomes', rows₀'⟩ := z'
  simp only [Zone.mk.injEq, and_true]
  exact ⟨hname'.trans (hsame.trans hname.symm), hweight'.trans hweight.symm,
    hsize'.trans hsize.symm, Except.ok.inj (hproducer'.symm.trans hproducer), hzoneClimates,
    hzoneBiomes⟩

end Roster

end Settings.DifferAt

namespace Generator
variable [Scalar α] {zone : String} {s s' : Settings α} {g g' : Generator α}

/-- Zones of one name over the same rows, which are the same zone unless they are of a given name. -/
def SameZone (zone : String) (z z' : Zone α) : Prop :=
  z'.name = z.name ∧ z'.rows = z.rows ∧ (z.name ≠ zone → z' = z)

omit [Scalar α] in
theorem forall₂_stacked {zones zones' : List (Zone α)}
    (h : List.Forall₂ (fun z z' => (z'.name = z.name ∧ z'.heightWeight = z.heightWeight) ∧
      (z.name ≠ zone → ∀ rows, { z' with rows } = { z with rows })) zones zones')
    (rows : List Interval) :
    List.Forall₂ (SameZone zone) (List.zipWith (fun z rows => { z with rows }) zones rows)
      (List.zipWith (fun z rows => { z with rows }) zones' rows) := by
  induction h generalizing rows with
  | nil => exact .nil
  | cons hz _ ih =>
    cases rows with
    | nil => exact .nil
    | cons rows rest => exact .cons ⟨hz.1.1, rfl, fun hother => hz.2 hother rows⟩ (ih rest)

theorem SpreadsTo.sameZone (h : g.Renames id id g') (hshuffle : g.shuffleClimates = false)
    (hshuffle' : g'.shuffleClimates = false) {z z' w w' : Zone α} (hz : SameZone zone z z')
    (hw : g.SpreadsTo z w) (hw' : g'.SpreadsTo z' w') : SameZone zone w w' := by
  obtain ⟨order, columns, -, hfixed, hcolumns, rfl⟩ := hw
  obtain ⟨order', columns', -, hfixed', hcolumns', rfl⟩ := hw'
  obtain ⟨hname, hrows, hsame⟩ := hz
  refine ⟨hname, hrows, fun hother => ?_⟩
  obtain rfl := hsame hother
  rw [hfixed hshuffle] at hcolumns ⊢
  rw [hfixed' hshuffle'] at hcolumns' ⊢
  have hspread := h.columns? z'.name z'.climates
  rw [Prod.map_id, List.map_id] at hspread
  obtain rfl : columns' = columns := Except.ok.inj (hcolumns'.symm.trans (hspread.trans hcolumns))
  rfl

/-- Both constructors stack zones of the same names over the same rows, and place the same climates and
biomes at the same positions. -/
theorem build_differAt (h : s.DifferAt zone s') (hshuffle : s.shuffleClimates = false)
    (hg : (build s).outcome = .ok g) (hg' : (build s').outcome = .ok g') :
    g.Renames id id g' ∧ List.Forall₂ (SameZone zone) g.zones g'.zones := by
  obtain ⟨r, rows, hr, hrows, zones, stream, rfl, hzones⟩ := build_ok hg
  obtain ⟨r', rows', hr', hrows', zones', stream', rfl, hzones'⟩ := build_ok hg'
  have hsorted := h.sorted
  have halike := hsorted.zones_alike hr hr'
  have hworld : s'.world = s.world := by rw [h.rest]
  have hweights : (r'.zones.map fun z => (z.name, z.heightWeight)) =
      r.zones.map fun z => (z.name, z.heightWeight) :=
    map_eq_map_of_forall₂ halike fun z z' hz => Prod.ext hz.1.1 hz.1.2
  rw [hweights, hworld] at hrows'
  obtain rfl : rows' = rows := Except.ok.inj (hrows'.symm.trans hrows)
  have hclimates := hsorted.rel_climates hr hr'
  have hbiomes := hsorted.rel_biomes hr hr'
  have hrenames : (stacked s.sorted r rows').Renames id id (stacked s'.sorted r' rows') := by
    refine ⟨hworld, ?_, ?_, ?_, hclimates, hbiomes⟩
    · show s'.spawnSize = s.spawnSize
      rw [h.rest]
    · show s'.heightTransition = s.heightTransition
      rw [h.rest]
    · show s'.transition.getD defaultTransition = s.transition.getD defaultTransition
      rw [h.rest]
  have hshuffle' : s'.shuffleClimates = false := by
    rw [h.rest]
    exact hshuffle
  refine ⟨⟨hrenames.world, hrenames.spawnSize, hrenames.heightTransition, hrenames.transition,
    hrenames.climates, hrenames.biomes⟩, ?_⟩
  exact forall₂_square (forall₂_stacked halike rows') hzones hzones' fun z z' w w' hz hw hw' =>
    SpreadsTo.sameZone hrenames hshuffle hshuffle' hz hw hw'

/-- Outside of a zone, the rule of a cell is the same. -/
theorem Renames.biomeAt?_sameZone [NoiseSource α] [SquareRoot α] (h : g.Renames id id g')
    (hzones : List.Forall₂ (SameZone zone) g.zones g'.zones) {x y : Int}
    (hy : ∀ z ∈ g.zones, z.name = zone → z.rows.contains y = false) :
    g'.biomeAt? x y = g.biomeAt? x y := by
  have hfind := forall₂_rel_find? (p := (·.rows.contains y)) (q := (·.rows.contains y)) hzones
    fun z z' hz => by rw [hz.2.1]
  unfold Generator.biomeAt?
  cases hold : g.zones.find? (·.rows.contains y) with
  | none =>
    rw [hold] at hfind
    generalize g'.zones.find? (·.rows.contains y) = o at hfind ⊢
    cases hfind
    rfl
  | some z =>
    have hcontains : z.rows.contains y = true := by simpa using List.find?_some hold
    have hother : z.name ≠ zone := by
      intro hname
      have hfree := hy z (List.mem_of_find?_eq_some hold) hname
      rw [hcontains] at hfree
      exact Bool.noConfusion hfree
    rw [hold] at hfind
    generalize g'.zones.find? (·.rows.contains y) = o at hfind ⊢
    cases hfind with
    | @some z z' hz =>
      obtain rfl : z' = z := hz.2.2 hother
      have hcell : g'.biomeOn? (z'.renamed id id) x y = id <$> g.biomeOn? z' x y := h.biomeOn?
      rw [Zone.renamed_id, id_map] at hcell
      exact hcell

/-- Zones are isolated from each other. Where two worlds differ in one zone only, in its producer and in
the climates and biomes that are to be placed on it, their zones have the same rows, and their maps
agree on all rows but those of that zone. -/
theorem zones_isolated [NoiseSource α] [SquareRoot α] (h : s.DifferAt zone s')
    (hshuffle : s.shuffleClimates = false) (hg : (build s).outcome = .ok g)
    (hg' : (build s').outcome = .ok g') :
    List.Forall₂ (fun z z' => z'.name = z.name ∧ z'.rows = z.rows) g.zones g'.zones ∧
      ∀ map map', g.biomeMap.outcome = .ok map → g'.biomeMap.outcome = .ok map' → ∀ x y,
        (∀ z ∈ g.zones, z.name = zone → z.rows.contains y = false) →
          map'.get? x y = map.get? x y := by
  obtain ⟨hrenames, hzones⟩ := build_differAt h hshuffle hg hg'
  refine ⟨hzones.imp fun z z' hz => ⟨hz.1, hz.2.1⟩, fun map map' hmap hmap' x y hy => ?_⟩
  obtain ⟨-, hwidth, hheight⟩ := biomeMap_charted hg hmap
  obtain ⟨-, hwidth', hheight'⟩ := biomeMap_charted hg' hmap'
  rw [hrenames.world, ← hwidth, Nat.cast_inj] at hwidth'
  rw [hrenames.world, ← hheight, Nat.cast_inj] at hheight'
  by_cases hinside : 0 ≤ x ∧ x < map.width ∧ 0 ≤ y ∧ y < map.height
  · obtain ⟨hx, hxw, hy₀, hyh⟩ := hinside
    obtain ⟨k, hk, hcell⟩ := followsRule_of_biomeMap hg hmap x y hx (hwidth ▸ hxw) hy₀ (hheight ▸ hyh)
    rw [hwidth, ← hrenames.world] at hxw
    rw [hheight, ← hrenames.world] at hyh
    obtain ⟨k', hk', hcell'⟩ := followsRule_of_biomeMap hg' hmap' x y hx hxw hy₀ hyh
    rw [hrenames.biomeAt?_sameZone hzones hy, hk] at hk'
    obtain rfl := Except.ok.inj hk'
    rw [hcell, hcell']
  · have hnone : map.cell? x y = none := Grid.cell?_eq_none.mpr hinside
    have hnone' : map'.cell? x y = none := by
      rw [Grid.cell?_eq_none, hwidth', hheight']
      exact hinside
    rw [Grid.get?, Grid.get?, hnone, hnone', hwidth', hheight']

end Generator

section Sample
variable [Scalar α]

/-- A sample whose lower zone is made of other ground and holds one climate less and two biomes. -/
def Settings.redone : Settings α :=
  { sample with
    zones := [
      ("low", ⟨3.0, 1.0, 1.0, ⟨0.75, 0.0, "stone", "moss"⟩⟩),
      ("high", ⟨1.0, 0.0, 0.0, ⟨0.5, 0.0, "moss", "moss"⟩⟩)]
    climates := [
      ("desert", ⟨.oval 0.0, 2.0, 0.5, ⟨0.5, 0.0, "stone", "stone"⟩, ["low"]⟩),
      ("marsh", ⟨.rectangle 0.0, 0.0, 1.0, ⟨0.5, 0.0, "moss", "stone"⟩, ["high"]⟩),
      ("tundra", ⟨.triangle 0.5, 1.0, 1.0, ⟨0.5, 0.0, "moss", "stone"⟩, ["high", "low"]⟩)]
    biomes := [
      ("moss", ⟨(0, 255, 0), 1.0, .const 0.5, Span.full, ["low", "high"], ["desert"], .ignore⟩),
      ("stone", ⟨(9, 9, 9), 0.5, .const 0.25, Span.full, ["low"], ["tundra"], .ignore⟩)] }

theorem Settings.differAt_redone : (sample : Settings α).DifferAt "low" redone where
  zones := by simp [sample, sampleOf, redone]
  climates := by simp [sample, sampleOf, redone, SameBut]
  biomes := by simp [sample, sampleOf, redone, SameBut]
  rest := rfl

theorem Settings.redone_named : (redone : Settings α).NamedAsSample := ⟨rfl, rfl, rfl⟩

end Sample

namespace Generator

theorem exists_map_redone : ∃ (g : Generator Float) (map : Grid),
    (build Settings.redone).outcome = .ok g ∧ g.biomeMap.outcome = .ok map := by
  obtain ⟨g, map, hg, hmap⟩ :=
    exists_map_of_namedAsSample Settings.redone_named (by decide +kernel)
  exact ⟨g, map, hg, biomeMap_outcome.mpr hmap⟩

theorem zones_isolated_sample : ∃ (g g' : Generator Float) (map map' : Grid),
    (build Settings.sample).outcome = .ok g ∧ g.biomeMap.outcome = .ok map ∧
      (build Settings.redone).outcome = .ok g' ∧ g'.biomeMap.outcome = .ok map' ∧
      ∀ x y, (∀ z ∈ g.zones, z.name = "low" → z.rows.contains y = false) →
        map'.get? x y = map.get? x y := by
  obtain ⟨g, map, hg, hmap⟩ := exists_map_sample
  obtain ⟨g', map', hg', hmap'⟩ := exists_map_redone
  have hmap := biomeMap_outcome.mpr hmap
  exact ⟨g, g', map, map', hg, hmap, hg', hmap',
    (zones_isolated Settings.differAt_redone rfl hg hg').2 map map' hmap hmap'⟩

end Generator
end TileWorld
