import TileWorld.Proofs.World.Declared
import TileWorld.Proofs.World.Layouts
import TileWorld.Proofs.World.References

/-! What the names of settings come to. A reference is kept as the position of the entry of its name,
and zones and climates list the entries that refer to them, in order and as often as they do. -/
namespace TileWorld

/-- One list holds the entries of another in ascending order of their keys, and those whose keys are
equal in the order they had. -/
structure Order.Stable {α β : Type} [Scalar α] (key : β → α) (xs ys : List β) : Prop where
  perm : ys.Perm xs
  ascending : ys.Pairwise fun a b => Scalar.le (key a) (key b) = true
  kept : ∀ k, ys.filter (fun a => Scalar.same (key a) k) = xs.filter fun a => Scalar.same (key a) k

theorem Double.not_scalar_lt_of_same {x y z : Float} (hx : Scalar.same x z = true)
    (hy : Scalar.same y z = true) : Scalar.lt x y = false := by
  rw [Scalar.same, Bool.and_eq_true] at hx hy
  have hle : Scalar.le y x = true := scalar_le_trans hy.1 hx.2
  by_contra hlt
  rw [Bool.not_eq_false] at hlt
  exact scalar_lt_irrefl x (scalar_lt_of_lt_of_le hlt hle)

/-- Zones whose priorities are numbers are put in order by them, without changing places needlessly. -/
theorem Settings.sorted_stable {s : Settings Float}
    (h : ∀ e ∈ s.zones, e.2.priority.isNaN = false) :
    Order.Stable (·.2.priority) s.zones s.sorted.zones := by
  have hperm : s.sorted.zones.Perm s.zones := Order.ascending_perm _ s.zones
  refine ⟨hperm, ?_, fun k => Order.filter_ascending fun a _ b _ ha hb =>
    Double.not_scalar_lt_of_same hb ha⟩
  have hplaces : s.sorted.zones.Pairwise
      fun a b => Double.place a.2.priority ≤ Double.place b.2.priority :=
    Order.ascending_pairwise fun a ha b hb => Double.scalar_lt_iff_place (h b hb) (h a ha)
  refine hplaces.imp_of_mem fun {a b} ha hb hab => ?_
  have hnumber {e} (he : e ∈ s.sorted.zones) := Double.place?_eq_place (h e (hperm.mem_iff.mp he))
  exact Double.scalar_le_iff.mpr ⟨_, _, hnumber ha, hnumber hb, hab⟩

section Referrers
variable {references : List (List Nat)} {target : Nat}

theorem referrers_cons (targets : List Nat) (rest : List (List Nat)) (target : Nat) :
    referrers (targets :: rest) target =
      List.replicate (targets.count target) 0 ++ (referrers rest target).map (1 + ·) := by
  rw [← List.singleton_append, referrers_append]
  simp [referrers, List.map_const', List.count_eq_length_filter]

theorem referrers_pairwise : (referrers references target).Pairwise (· ≤ ·) := by
  induction references with
  | nil => exact List.Pairwise.nil
  | cons targets rest ih =>
    rw [referrers_cons, List.pairwise_append]
    refine ⟨List.pairwise_replicate.mpr (Or.inr le_rfl), ?_, fun j hj k _ => ?_⟩
    · exact List.pairwise_map.mpr (ih.imp fun hjk => Nat.add_le_add_left hjk 1)
    · rw [List.eq_of_mem_replicate hj]
      exact Nat.zero_le k

theorem count_referrers (k : Nat) :
    (referrers references target).count k = (references[k]?.getD []).count target := by
  induction references generalizing k with
  | nil => rfl
  | cons targets rest ih =>
    rw [referrers_cons, List.count_append]
    cases k with
    | zero =>
      have hlater : ((referrers rest target).map (1 + ·)).count 0 = 0 := by
        refine List.count_eq_zero.mpr fun h => ?_
        obtain ⟨j, -, hj⟩ := List.mem_map.mp h
        omega
      rw [List.count_replicate_self, hlater]
      rfl
    | succ k =>
      rw [List.count_replicate, if_neg (by simp), Nat.zero_add, Nat.add_comm k 1,
        List.count_map_of_injective _ _ (add_right_injective 1), ih, Nat.add_comm 1 k]
      rfl

end Referrers

namespace Directory
variable {kind name : String} {names refs : List String} {ks : List Nat}

/-- Positions of the entries that are referred to by name. -/
def At (names refs : List String) (ks : List Nat) : Prop :=
  List.Forall₂ (fun ref k => names[k]? = some ref) refs ks

theorem at_of_mapM (hnames : names.Nodup) (h : refs.mapM (resolve? kind names) = .ok ks) :
    At names refs ks :=
  (mapM_eq_ok.mp h).imp fun _ _ hk => (resolve?_eq_ok hnames).mp hk

theorem resolve?_of_not_mem (h : name ∉ names) :
    resolve? kind names name = .error (.settings (.unknownReference kind name)) := by
  unfold resolve?
  cases hk : position? names name with
  | none => rfl
  | some k => exact absurd (List.mem_of_getElem? (getElem?_of_position? hk)) h

/-- Positions of the entries that refer to a name, in ascending order, each as often as it does. -/
structure Listing (references : List (List String)) (name : String) (ks : List Nat) : Prop where
  ascending : ks.Pairwise (· ≤ ·)
  count : ∀ k, ks.count k = (references[k]?.getD []).count name

theorem count_resolved {k : Nat} (hnames : names.Nodup) (hk : names[k]? = some name)
    (h : refs.mapM (resolve? kind names) = .ok ks) : ks.count k = refs.count name := by
  rw [List.count_eq_length_filter, filter_resolved hnames hk h, List.length_map,
    List.count_eq_length_filter]

/-- Entries whose references resolve are listed, each under the name that it refers to. -/
theorem listing_referrers {β γ : Type} {es : List β} {rs : List γ} {refs : β → List String}
    {ks : γ → List Nat} {k : Nat} (hnames : names.Nodup) (hk : names[k]? = some name)
    (h : List.Forall₂ (fun e r => (refs e).mapM (resolve? kind names) = .ok (ks r)) es rs) :
    Listing (es.map refs) name (referrers (rs.map ks) k) := by
  refine ⟨referrers_pairwise, fun j => ?_⟩
  rw [count_referrers, List.getElem?_map, List.getElem?_map]
  have hj := forall₂_rel_getElem? h j
  generalize es[j]? = e at hj ⊢
  generalize rs[j]? = r at hj ⊢
  cases hj with
  | none => rfl
  | some hks => exact count_resolved hnames hk hks

end Directory

namespace Generator
variable {α : Type} [Scalar α] {s : Settings α} {g g' : Generator α}

theorem length_of_columns? {zone : String} {order : List (Nat × Interval)} {columns : List Interval}
    (h : g.columns? zone order = .ok columns) : columns.length = order.length := by
  unfold columns? at h
  split_ifs at h with hempty
  · obtain rfl : [] = columns := Except.ok.inj h
    rw [List.isEmpty_iff.mp hempty, List.length_nil, List.length_nil]
  · simpa using Layout.Spread.columns?_length (Layout.spread?_eq_ok.mp h).2

/-- Climates are laid out in the orders drawn for them, zone after zone from one stream. -/
theorem spreadZones_drawn {zones zones' : List (Zone α)} {stream stream' : Stream}
    (h : g.spreadZones zones stream = (zones', stream', none)) :
    zones'.map (·.climates.map Prod.fst) =
      (Stream.drawn g.shuffleClimates (zones.map (·.climates)) stream).map (List.map Prod.fst) := by
  induction zones generalizing zones' stream with
  | nil =>
    obtain rfl : zones' = [] := by simpa [spreadZones, eq_comm] using congrArg Prod.fst h
    rfl
  | cons z rest ih =>
    rw [spreadZones] at h
    rw [List.map_cons, Stream.drawn]
    generalize (if g.shuffleClimates then stream.permute z.climates
      else (z.climates, stream)) = drawn at h ⊢
    obtain ⟨order, next⟩ := drawn
    cases hcolumns : g.columns? z.name order with
    | error e => simp [hcolumns] at h
    | ok columns =>
      simp only [hcolumns] at h
      generalize hrest : g.spreadZones rest next = spread at h
      obtain ⟨rest', stream₂, fault⟩ := spread
      simp only [Prod.mk.injEq] at h
      obtain ⟨rfl, rfl, rfl⟩ := h
      have hlength : columns.length = (order.map Prod.fst).length := by
        rw [length_of_columns? hcolumns, List.length_map]
      rw [List.map_cons, List.map_cons, ih hrest, List.map_fst_zip hlength.ge]

/-- A zone as it was listed, but for its rows, the order of its climates and their columns. -/
def LaidFrom (z₀ z : Zone α) : Prop :=
  z = { z₀ with rows := z.rows, climates := z.climates }

/-- What the constructor returns is the roster of its settings, laid out. -/
theorem build_roster (h : (build s).outcome = .ok g) :
    ∃ roster, Roster.Resolves s.sorted roster ∧ g.climates = roster.climates ∧
      g.biomes = roster.biomes ∧ List.Forall₂ LaidFrom roster.zones g.zones ∧
      g.zones.map (·.climates.map Prod.fst) = Stream.drawn s.shuffleClimates
        (roster.zones.map (·.climates.map Prod.fst)) (Stream.ofSeed s.world.seed.toNat) := by
  simp only [build_outcome, bind_eq_ok] at h
  obtain ⟨roster, hroster, g₁, hstack, hspread⟩ := h
  unfold stack? at hstack
  obtain ⟨rows, hrows, hg⟩ := bind_eq_ok.mp hstack
  obtain rfl : stacked s.sorted roster rows = g₁ := Except.ok.inj hg
  have hlength : rows.length = roster.zones.length :=
    (Layout.stack?_length hrows).trans (List.length_map _)
  have hclimates : (stacked s.sorted roster rows).zones.map (·.climates) =
      roster.zones.map (·.climates) := by
    rw [stacked, ← List.map_uncurry_zip_eq_zipWith, List.map_map]
    conv_rhs => rw [← List.map_fst_zip hlength.ge, List.map_map]
    rfl
  unfold spread? spread at hspread
  generalize hzones : (stacked s.sorted roster rows).spreadZones (stacked s.sorted roster rows).zones
    (stacked s.sorted roster rows).stream = spread at hspread
  obtain ⟨zones, stream, _ | e⟩ := spread
  · obtain rfl := Except.ok.inj hspread
    refine ⟨roster, Roster.resolve?_ok hroster, rfl, rfl, ?_, ?_⟩
    · have hspreads := spreadZones_ok hzones
      refine forall₂_of_getElem? ?_ fun k z₀ z hz₀ hz => ?_
      · rw [← hspreads.length_eq, stacked, List.length_zipWith, hlength, min_self]
      · obtain ⟨z₁, hz₁, order, columns, -, -, -, rfl⟩ := forall₂_getElem? hspreads hz
        obtain ⟨z₂, rows', hz₂, rfl⟩ := stacked_zone hz₁
        obtain rfl : z₀ = z₂ := Option.some.inj (hz₀.symm.trans hz₂)
        rfl
    · have hdrawn := spreadZones_drawn hzones
      rw [hclimates, ← Stream.drawn_map, List.map_map] at hdrawn
      exact hdrawn
  · cases hspread

end Generator

namespace Roster.Resolves
variable {α : Type} [Scalar α] {s : Settings α} {r : Roster α}

theorem zoneNames (h : Resolves s r) : r.zones.map (·.name) = s.zones.map Prod.fst :=
  map_eq_map_of_forall₂ h.zones fun _ _ hz => hz.1

theorem climateNames (h : Resolves s r) :
    r.climates.toList.map (·.name) = s.climates.map Prod.fst :=
  map_eq_map_of_forall₂ h.climates fun _ _ hc => hc.1

theorem biomeNames (h : Resolves s r) : r.biomes.toList.map (·.name) = s.biomes.map Prod.fst :=
  map_eq_map_of_forall₂ h.biomes fun _ _ hb => hb.1

theorem zone_name (h : Resolves s r) {k : Nat} {z : Zone α} (hz : r.zones[k]? = some z) :
    (s.zones.map Prod.fst)[k]? = some z.name := by
  rw [← h.zoneNames, List.getElem?_map, hz]
  rfl

theorem zoneBiomes_listing (h : Resolves s r) {k : Nat} {z : Zone α} (hz : r.zones[k]? = some z) :
    Directory.Listing (s.biomes.map (·.2.zones)) z.name z.biomes := by
  rw [h.zoneBiomes k z hz]
  exact Directory.listing_referrers (nodup_of_checkUnique h.zonesUnique) (h.zone_name hz)
    (h.biomes.imp fun _ _ hb => hb.2.2.2.2.2.2.1)

theorem zoneClimates_listing (h : Resolves s r) {k : Nat} {z : Zone α}
    (hz : r.zones[k]? = some z) :
    Directory.Listing (s.climates.map (·.2.zones)) z.name (z.climates.map Prod.fst) := by
  have hids : z.climates.map Prod.fst = referrers (r.climates.toList.map (·.zones)) k := by
    rw [h.zoneClimates k z hz, List.map_map]
    exact List.map_id _
  rw [hids]
  exact Directory.listing_referrers (nodup_of_checkUnique h.zonesUnique) (h.zone_name hz)
    (h.climates.imp fun _ _ hc => hc.2.2.2.2.2)

theorem climateBiomes_listing (h : Resolves s r) {k : Nat} {c : Climate α}
    (hc : r.climates.toList[k]? = some c) :
    Directory.Listing (s.biomes.map (·.2.climates)) c.name c.biomes := by
  have hname : (s.climates.map Prod.fst)[k]? = some c.name := by
    rw [← h.climateNames, List.getElem?_map, hc]
    rfl
  rw [h.climateBiomes k c (Array.getElem?_toList.symm.trans hc)]
  exact Directory.listing_referrers (nodup_of_checkUnique h.climatesUnique) hname
    (h.biomes.imp fun _ _ hb => hb.2.2.2.2.2.2.2)

end Roster.Resolves

/-- A producer of the biomes that settings name. -/
structure Producer.Names {α : Type} (biomes : List String) (t : ProducerSettings α)
    (p : Producer α) : Prop where
  surfaceSize : p.surfaceSize = t.surfaceSize
  surfaceTransition : p.surfaceTransition = t.surfaceTransition
  surface : biomes[p.surface]? = some t.surfaceBiome
  cave : biomes[p.cave]? = some t.caveBiome

theorem Producer.names_of_resolve? {α : Type} {biomes : List String} {t : ProducerSettings α}
    {p : Producer α} (hnames : biomes.Nodup) (h : resolve? biomes t = .ok p) :
    Producer.Names biomes t p := by
  simp only [resolve?, bind_eq_ok, pure_eq_ok, Except.ok.injEq] at h
  obtain ⟨surface, hsurface, cave, hcave, rfl⟩ := h
  exact ⟨rfl, rfl, (Directory.resolve?_eq_ok hnames).mp hsurface,
    (Directory.resolve?_eq_ok hnames).mp hcave⟩

namespace Generator
variable {α : Type} [Scalar α]

/-- Names of zones by position. -/
def zoneDirectory (g : Generator α) : List String := g.zones.map (·.name)

/-- Names of climates by position. -/
def climateDirectory (g : Generator α) : List String := g.climates.toList.map (·.name)

/-- Names of biomes by position. -/
def biomeDirectory (g : Generator α) : List String := g.biomes.toList.map (·.name)

/-- A generator holds the entries of settings one by one, with positions in place of names. -/
structure Keeps (s : Settings α) (g : Generator α) : Prop where
  zones : List.Forall₂ (fun e z => z.name = e.1 ∧
      z.heightWeight = e.2.heightWeight / Scalar.sum (s.zones.map (·.2.heightWeight)) ∧
      z.terrainSize = e.2.terrainSize ∧ z.producer.Names g.biomeDirectory e.2.producer)
    s.zones g.zones
  climates : List.Forall₂ (fun e c => c.name = e.1 ∧ c.shape = e.2.shape ∧
      c.widthWeight = e.2.widthWeight ∧ c.depth = e.2.depth ∧
      c.producer.Names g.biomeDirectory e.2.producer ∧
      Directory.At g.zoneDirectory e.2.zones c.zones)
    s.climates g.climates.toList
  biomes : List.Forall₂ (fun e b => b.name = e.1 ∧ b.label = e.2.label ∧ b.ratio = e.2.ratio ∧
      b.selection = e.2.selection ∧ b.heightRange = e.2.heightRange ∧ b.painter = e.2.painter ∧
      Directory.At g.zoneDirectory e.2.zones b.zones ∧
      Directory.At g.climateDirectory e.2.climates b.climates)
    s.biomes g.biomes.toList
  zoneBiomes : ∀ z ∈ g.zones, Directory.Listing (s.biomes.map (·.2.zones)) z.name z.biomes
  climateBiomes : ∀ c ∈ g.climates.toList,
    Directory.Listing (s.biomes.map (·.2.climates)) c.name c.biomes
  /-- Climates are listed before they are laid out in drawn orders. -/
  zoneClimates : ∃ listed, List.Forall₂
      (fun z ks => Directory.Listing (s.climates.map (·.2.zones)) z.name ks) g.zones listed ∧
    g.zones.map (·.climates.map Prod.fst) =
      Stream.drawn s.shuffleClimates listed (Stream.ofSeed s.world.seed.toNat)

variable {s : Settings α} {g : Generator α}

/-- The constructor keeps what it is given, put in order, and its names stand by position. -/
theorem build_keeps (h : (build s).outcome = .ok g) :
    g.Keeps s.sorted ∧ g.climateDirectory = s.sorted.climates.map Prod.fst ∧
      g.biomeDirectory = s.sorted.biomes.map Prod.fst := by
  obtain ⟨roster, hr, hclimates, hbiomes, hlaid, hdrawn⟩ := build_roster h
  have hzoneNames := Roster.nodup_of_checkUnique hr.zonesUnique
  have hclimateNames := Roster.nodup_of_checkUnique hr.climatesUnique
  have hbiomeNames := Roster.nodup_of_checkUnique hr.biomesUnique
  have hname {z₀ z : Zone α} (hz : LaidFrom z₀ z) : z.name = z₀.name :=
    (congrArg Zone.name hz :)
  have hzoneDirectory : g.zoneDirectory = s.sorted.zones.map Prod.fst :=
    (map_eq_map_of_forall₂ hlaid fun _ _ => hname).trans hr.zoneNames
  have hclimateDirectory : g.climateDirectory = s.sorted.climates.map Prod.fst := by
    rw [climateDirectory, hclimates, hr.climateNames]
  have hbiomeDirectory : g.biomeDirectory = s.sorted.biomes.map Prod.fst := by
    rw [biomeDirectory, hbiomes, hr.biomeNames]
  refine ⟨⟨?_, ?_, ?_, fun z hz => ?_, fun c hc => ?_, _, ?_, hdrawn⟩, hclimateDirectory,
    hbiomeDirectory⟩
  · rw [hbiomeDirectory]
    refine forall₂_comp hr.zones hlaid fun e z₀ z he hz => ?_
    obtain ⟨hname, hweight, hterrain, hproducer⟩ := he
    rw [hz]
    exact ⟨hname, hweight, hterrain, Producer.names_of_resolve? hbiomeNames hproducer⟩
  · rw [hbiomeDirectory, hzoneDirectory, hclimates]
    refine hr.climates.imp fun e c hc => ?_
    obtain ⟨hname, hshape, hweight, hdepth, hproducer, hrefs⟩ := hc
    exact ⟨hname, hshape, hweight, hdepth, Producer.names_of_resolve? hbiomeNames hproducer,
      Directory.at_of_mapM hzoneNames hrefs⟩
  · rw [hzoneDirectory, hclimateDirectory, hbiomes]
    refine hr.biomes.imp fun e b hb => ?_
    obtain ⟨hname, hlabel, hratio, hselection, hrange, hpainter, hrefs, hrefs'⟩ := hb
    exact ⟨hname, hlabel, hratio, hselection, hrange, hpainter,
      Directory.at_of_mapM hzoneNames hrefs, Directory.at_of_mapM hclimateNames hrefs'⟩
  · obtain ⟨k, hk⟩ := List.getElem?_of_mem hz
    obtain ⟨z₀, hz₀, hlaid⟩ := forall₂_getElem? hlaid hk
    rw [hlaid]
    exact (hr.zoneBiomes_listing hz₀ :)
  · obtain ⟨k, hk⟩ := List.getElem?_of_mem hc
    exact hr.climateBiomes_listing (hclimates ▸ hk)
  · rw [List.forall₂_map_right_iff]
    refine List.Forall₂.flip (forall₂_of_getElem? hlaid.length_eq fun k z₀ z hz₀ hz => ?_)
    obtain ⟨z₁, hz₁, hlaid⟩ := forall₂_getElem? hlaid hz
    obtain rfl : z₀ = z₁ := Option.some.inj (hz₀.symm.trans hz₁)
    show Directory.Listing _ z.name _
    rw [hname hlaid]
    exact hr.zoneClimates_listing hz₀

theorem biomeId?_eq_ok (h : (build s).outcome = .ok g) {name : String} {k : Nat} :
    g.biomeId? name = .ok k ↔ g.biomes[k]?.map (·.name) = some name := by
  obtain ⟨roster, hr, -, hbiomes, -⟩ := build_roster h
  have hnames : g.biomeDirectory.Nodup := by
    rw [biomeDirectory, hbiomes, hr.biomeNames]
    exact Roster.nodup_of_checkUnique hr.biomesUnique
  rw [← Array.getElem?_toList, ← List.getElem?_map]
  exact Directory.resolve?_eq_ok hnames

/-- A built world is what its settings declare. Zones stand in the stable order of their priorities,
climates and biomes by name. Each reference is the position of the entry of that name, and each zone
and climate lists the entries that refer to it. A biome is found at its own position by its name, and
a name that is not declared is reported. -/
theorem names_resolve {s : Settings Float} {g : Generator Float}
    (hnumbers : ∀ e ∈ s.zones, e.2.priority.isNaN = false) (h : (build s).outcome = .ok g) :
    Order.Stable (·.2.priority) s.zones s.sorted.zones ∧
      (s.sorted.climates.Perm s.climates ∧ g.climateDirectory.Pairwise (· < ·)) ∧
      (s.sorted.biomes.Perm s.biomes ∧ g.biomeDirectory.Pairwise (· < ·)) ∧
      g.Keeps s.sorted ∧
      ∀ name, (∀ k, g.biomeId? name = .ok k ↔ g.biomes[k]?.map (·.name) = some name) ∧
        (name ∈ s.biomes.map Prod.fst → ∃ k, g.biomeId? name = .ok k) ∧
        (name ∉ s.biomes.map Prod.fst →
          g.biomeId? name = .error (.settings (.unknownReference "biome" name))) := by
  obtain ⟨hkeeps, hclimateNames, hbiomeNames⟩ := build_keeps h
  obtain ⟨roster, rows, hr, -⟩ := build_ok h
  have hdeclared (name : String) : name ∈ g.biomeDirectory ↔ name ∈ s.biomes.map Prod.fst := by
    rw [hbiomeNames]
    exact ((Order.byName_perm s.biomes).map Prod.fst).mem_iff
  refine ⟨Settings.sorted_stable hnumbers, ⟨Order.byName_perm s.climates, ?_⟩,
    ⟨Order.byName_perm s.biomes, ?_⟩, hkeeps, fun name => ⟨fun k => biomeId?_eq_ok h,
      fun hname => ?_, fun hname => ?_⟩⟩
  · rw [hclimateNames]
    exact Order.byName_names_lt (Roster.nodup_of_checkUnique hr.climatesUnique)
  · rw [hbiomeNames]
    exact Order.byName_names_lt (Roster.nodup_of_checkUnique hr.biomesUnique)
  · exact Directory.exists_resolve? ((hdeclared name).mpr hname)
  · exact Directory.resolve?_of_not_mem (mt (hdeclared name).mp hname)

theorem names_resolve_sample : ∃ g : Generator Float, (build Settings.sample).outcome = .ok g ∧
    g.Keeps (Settings.sample : Settings Float).sorted ∧
      (∃ k, g.biomeId? "moss" = .ok k) ∧
      g.biomeId? "fern" = .error (.settings (.unknownReference "biome" "fern")) := by
  obtain ⟨g, hg⟩ := exists_build_sample
  have hnumbers : ∀ e ∈ (Settings.sample : Settings Float).zones, e.2.priority.isNaN = false := by
    simp only [Settings.sample, Settings.sampleOf, List.forall_mem_cons, List.not_mem_nil,
      false_imp_iff, implies_true, and_true]
    decide
  obtain ⟨-, -, -, hkeeps, hnames⟩ := names_resolve hnumbers hg
  refine ⟨g, hg, hkeeps, (hnames "moss").2.1 ?_, (hnames "fern").2.2 ?_⟩
  · simp [Settings.sample, Settings.sampleOf]
  · simp [Settings.sample, Settings.sampleOf]

end Generator
end TileWorld
