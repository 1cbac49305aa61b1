import TileWorld.Proofs.World.Layouts
import TileWorld.Proofs.World.References

/-! Which settings the constructor takes. They are asked for six things, and refused with a report
when one of them is missing; no arithmetic and no look-up between the checks can fail. -/
namespace TileWorld
open Double

namespace Settings
variable {α : Type} [Scalar α]

/-- The total of the height weights, from the first zone to the last. -/
def totalHeight (s : Settings α) : α := Scalar.sum (s.sorted.zones.map (·.2.heightWeight))

/-- The width weights of the climates on a zone, each as often as it refers to the zone. -/
def widthsOn (s : Settings α) (zone : String) : List α :=
  s.climates.flatMap fun e => (e.2.zones.filter (· == zone)).map fun _ => e.2.widthWeight

/-- The width weights of the climates on each zone, in the order they are laid out in. -/
def layoutWeights (s : Settings α) : List (List α) :=
  Stream.drawn s.shuffleClimates (s.sorted.zones.map fun e => s.sorted.widthsOn e.1)
    (Stream.ofSeed s.world.seed.toNat)

/-- What is asked of settings. -/
structure Buildable (s : Settings α) : Prop where
  distinct : s.Distinct
  zones_ne_nil : s.zones ≠ []
  weighted : Scalar.lt 0.0 s.totalHeight = true
  declared : s.Declared
  stackable : Layout.Stackable s.world.height 0
    (s.sorted.zones.map fun e => e.2.heightWeight / s.totalHeight)
  spreadable : ∀ weights ∈ s.layoutWeights, weights ≠ [] →
    Scalar.lt 0.0 (Scalar.sum weights) = true

/-- Settings whose weights are finite. -/
structure FiniteWeights (s : Settings Float) : Prop where
  zones : ∀ e ∈ s.zones, (value e.2.heightWeight).isFinite = true
  climates : ∀ e ∈ s.climates, (value e.2.widthWeight).isFinite = true

section Weights
variable {s : Settings Float}

theorem FiniteWeights.weighs_height (h : s.FiniteWeights) (hs : s.InBounds) :
    ∀ w ∈ s.sorted.zones.map (·.2.heightWeight), Weighs w := by
  intro w hw
  obtain ⟨e, he, rfl⟩ := List.mem_map.mp hw
  have hmem : e ∈ s.zones := (Order.ascending_perm _ s.zones).mem_iff.mp he
  exact ⟨(hs.zones e hmem).heightWeight, h.zones e hmem⟩

theorem FiniteWeights.weighs_width (h : s.FiniteWeights) (hs : s.InBounds) :
    ∀ e ∈ s.sorted.climates, Weighs e.2.widthWeight := by
  intro e he
  have hmem : e ∈ s.climates := (Order.byName_perm s.climates).mem_iff.mp he
  exact ⟨(hs.climates e hmem).widthWeight, h.climates e hmem⟩

theorem shares_sorted_iff (h : s.FiniteWeights) (hs : s.InBounds) :
    s.sorted.Shares ↔ s.zones ≠ [] ∧ Scalar.lt 0.0 s.totalHeight = true := by
  have htotal := (weights_le_sum (h.weighs_height hs)).1
  rw [Shares, ne_eq, sorted_zones_eq_nil, totalHeight, isWeight_pos_iff htotal]

end Weights
end Settings

section Widths
variable {α : Type} [Scalar α]

/-- The climates that refer to a zone have the weights that its settings give them. -/
theorem map_widthWeight_referrers {names : List String} {name : String} {k : Nat}
    (hnames : names.Nodup) (hk : names[k]? = some name)
    {es : List (String × ClimateSettings α)} {cs : List (Climate α)}
    (h : List.Forall₂ (fun e c => c.widthWeight = e.2.widthWeight ∧
      e.2.zones.mapM (Directory.resolve? "zone" names) = .ok c.zones) es cs) :
    (referrers (cs.map (·.zones)) k).map (Generator.widthWeight cs.toArray) =
      es.flatMap fun e => (e.2.zones.filter (· == name)).map fun _ => e.2.widthWeight := by
  have hat : (referrers (cs.map (·.zones)) k).map (Generator.widthWeight cs.toArray) =
      cs.flatMap fun c => (c.zones.filter (· == k)).map fun _ => c.widthWeight := by
    unfold referrers
    rw [List.zipIdx_map, List.flatMap_map, List.map_flatMap]
    conv_rhs => rw [← List.zipIdx_map_fst 0 cs, List.flatMap_map]
    refine List.flatMap_congr fun e he => ?_
    have hc : cs.toArray[e.2]? = some e.1 := by
      rw [List.getElem?_toArray]
      exact List.mk_mem_zipIdx_iff_getElem?.mp he
    simp [Generator.widthWeight, hc]
  rw [hat, List.flatMap_def, List.flatMap_def]
  refine congrArg List.flatten (map_eq_map_of_forall₂ h fun e c ⟨hweight, hrefs⟩ => ?_)
  rw [Directory.filter_resolved hnames hk hrefs, hweight, List.map_map]
  rfl

theorem Roster.Resolves.widths {s : Settings α} {r : Roster α} (h : Roster.Resolves s r) :
    r.zones.map (fun z => z.climates.map fun c => Generator.widthWeight r.climates c.1) =
      s.zones.map fun e => s.widthsOn e.1 := by
  refine List.ext_getElem? fun k => ?_
  rw [List.getElem?_map, List.getElem?_map]
  cases hz : r.zones[k]? with
  | none =>
    have hrel := forall₂_rel_getElem? h.zones k
    rw [hz] at hrel
    generalize s.zones[k]? = o at hrel ⊢
    cases hrel
    rfl
  | some z =>
    obtain ⟨e, he, hname, -⟩ := forall₂_getElem? h.zones hz
    have hat : (s.zones.map Prod.fst)[k]? = some e.1 := by rw [List.getElem?_map, he]; rfl
    have hwidths := map_widthWeight_referrers (Roster.nodup_of_checkUnique h.zonesUnique) hat
      (h.climates.imp fun e c hc => ⟨hc.2.2.1, hc.2.2.2.2.2⟩)
    rw [he, Option.map_some, Option.map_some, h.zoneClimates k z hz, List.map_map]
    exact congrArg some hwidths

end Widths

namespace Generator
variable {s : Settings Float} {r : Roster Float}

theorem weighs_widthWeight (hs : s.InBounds) (hweights : s.FiniteWeights)
    (hr : Roster.Resolves s.sorted r) (k : Nat) : Weighs (widthWeight r.climates k) := by
  unfold widthWeight
  cases hc : r.climates[k]? with
  | none => exact ⟨by decide, rfl⟩
  | some c =>
    have hmem : c ∈ r.climates.toList := Array.mem_toList_iff.mpr (Array.mem_of_getElem? hc)
    obtain ⟨e, he, -, -, hweight, -⟩ := forall₂_exists_mem hr.climates hmem
    have hweighs := hweights.weighs_width hs e he
    rwa [← hweight] at hweighs

/-- Zones of a roster are stacked by the shares that their weights are of the total. -/
theorem exists_stack?_iff_stackable (hr : Roster.Resolves s.sorted r) :
    (∃ rows, Layout.stack? s.world.height 0 (r.zones.map fun z => (z.name, z.heightWeight)) =
        .ok rows) ↔
      Layout.Stackable s.world.height 0
        (s.sorted.zones.map fun e => e.2.heightWeight / s.totalHeight) := by
  have hne : (r.zones.map fun z => (z.name, z.heightWeight)) ≠ [] := by
    rw [ne_eq, List.map_eq_nil_iff]
    rintro hnil
    exact hr.zones_ne_nil (List.forall₂_nil_right_iff.mp (hnil ▸ hr.zones))
  have hshares : (r.zones.map fun z => (z.name, z.heightWeight)).map Prod.snd =
      s.sorted.zones.map fun e => e.2.heightWeight / s.totalHeight := by
    rw [List.map_map]
    exact map_eq_map_of_forall₂ hr.zones fun e z hz => hz.2.1
  rw [Layout.exists_stack?_iff hne, hshares]

/-- The share of a zone comes to an integer number of rows. -/
theorem stack?_isEmptyZone (hs : s.InBounds) (hweights : s.FiniteWeights)
    (hheight : s.world.height < 2 ^ 53) (hr : Roster.Resolves s.sorted r) {e : Fault}
    (h : Layout.stack? s.world.height 0 (r.zones.map fun z => (z.name, z.heightWeight)) =
      .error e) : ∃ name, e = .settings (.emptyZone name) := by
  obtain ⟨htotal, hle⟩ := weights_le_sum (hweights.weighs_height hs)
  have hpos := (isWeight_pos_iff htotal).mpr hr.total_pos
  refine Layout.stack?_eq_error (fun zone hzone => ?_) h
  obtain ⟨z, hz, rfl⟩ := List.mem_map.mp hzone
  obtain ⟨entry, hentry, -, hshare, -⟩ := forall₂_exists_mem hr.zones hz
  have hmem : entry.2.heightWeight ∈ s.sorted.zones.map (·.2.heightWeight) :=
    List.mem_map_of_mem hentry
  have hisShare : Scalar.IsShare z.heightWeight := by
    rw [hshare]
    exact isShare_div (hweights.weighs_height hs _ hmem) hpos (hle _ hmem)
  obtain ⟨n, hn, -⟩ := exists_scale?_share hs.height.le (hheight.le.trans (by norm_num)) hisShare
  exact ⟨n, hn⟩

section Spread
variable {g : Generator Float}

/-- Columns can be found for climates in some order exactly when there are none of them, or they
have a width. -/
theorem exists_columns?_iff (hwidth : 0 ≤ g.world.width ∧ g.world.width ≤ 2 ^ 53)
    (hgap : Scalar.IsShare g.spawnSize) (hweights : ∀ k, Weighs (widthWeight g.climates k))
    (name : String) (order : List (Nat × Interval)) :
    (∃ columns, g.columns? name order = .ok columns) ↔ (order ≠ [] →
      Scalar.lt 0.0 (Scalar.sum (order.map fun c => widthWeight g.climates c.1)) = true) := by
  unfold columns?
  cases order with
  | nil => simp
  | cons c rest =>
    rw [List.isEmpty_cons, if_neg Bool.false_ne_true, Layout.exists_spread?_iff name hwidth hgap]
    · simp
    · intro w hw
      obtain ⟨c, -, rfl⟩ := List.mem_map.mp hw
      exact hweights c.1

theorem columns?_eq_error (hwidth : 0 ≤ g.world.width ∧ g.world.width ≤ 2 ^ 53)
    (hgap : Scalar.IsShare g.spawnSize) (hweights : ∀ k, Weighs (widthWeight g.climates k))
    {name : String} {order : List (Nat × Interval)} {e : Fault}
    (h : g.columns? name order = .error e) : e = .settings (.climateWeights name) := by
  unfold columns? at h
  split_ifs at h
  refine Layout.spread?_eq_error hwidth hgap (fun w hw => ?_) h
  obtain ⟨c, -, rfl⟩ := List.mem_map.mp hw
  exact hweights c.1

end Spread

/-- The climates on the zones of a roster can be spread exactly when those of each zone have a
width. -/
theorem exists_spread?_iff_widths (hs : s.InBounds) (hweights : s.FiniteWeights)
    (hwidth : s.world.width < 2 ^ 53) (hr : Roster.Resolves s.sorted r) {rows : List Interval}
    (hrows : rows.length = r.zones.length) :
    ((∃ g, (stacked s.sorted r rows).spread? = .ok g) ↔ ∀ weights ∈ s.layoutWeights,
        weights ≠ [] → Scalar.lt 0.0 (Scalar.sum weights) = true) ∧
      ∀ e, (stacked s.sorted r rows).spread? = .error e →
        ∃ name, e = .settings (.climateWeights name) := by
  have hsizes : 0 ≤ s.world.width ∧ s.world.width ≤ 2 ^ 53 := ⟨hs.width.le, hwidth.le⟩
  have hgap : Scalar.IsShare s.spawnSize := ⟨hs.spawnSize.1, scalar_le_of_lt hs.spawnSize.2⟩
  have hwidths := weighs_widthWeight hs hweights hr
  have hzones : (stacked s.sorted r rows).zones.map (·.climates) = r.zones.map (·.climates) := by
    rw [stacked, ← List.map_uncurry_zip_eq_zipWith, List.map_map]
    calc (r.zones.zip rows).map (fun e => e.1.climates)
        = ((r.zones.zip rows).map Prod.fst).map (·.climates) := by rw [List.map_map]; rfl
      _ = r.zones.map (·.climates) := by rw [List.map_fst_zip hrows.ge]
  have hdrawn : s.layoutWeights = (Stream.drawn s.shuffleClimates
      ((stacked s.sorted r rows).zones.map (·.climates)) (Stream.ofSeed s.world.seed.toNat)).map
        (List.map fun c => widthWeight r.climates c.1) := by
    rw [Settings.layoutWeights, ← hr.widths, hzones, ← Stream.drawn_map, List.map_map]
    rfl
  constructor
  · rw [exists_spread?_iff, spreadZones_eq_none_iff
      (exists_columns?_iff (g := stacked s.sorted r rows) hsizes hgap hwidths), hdrawn]
    simp only [List.forall_mem_map, ne_eq, List.map_eq_nil_iff]
    rfl
  · intro e he
    obtain ⟨name, order, hfault⟩ := spreadZones_eq_some (spread?_eq_error_iff.mp he)
    exact ⟨name, columns?_eq_error (g := stacked s.sorted r rows) hsizes hgap hwidths hfault⟩

/-- A roster is laid out, or refused because there is no room for a zone or for climates. -/
theorem layOut_verdict (hs : s.InBounds) (hweights : s.FiniteWeights)
    (hwidth : s.world.width < 2 ^ 53) (hheight : s.world.height < 2 ^ 53)
    (hr : Roster.Resolves s.sorted r) :
    ((∃ g, ((ofRoster s.sorted r).stack? >>= fun g => g.spread?) = .ok g) ↔
        Layout.Stackable s.world.height 0
          (s.sorted.zones.map fun e => e.2.heightWeight / s.totalHeight) ∧
        ∀ weights ∈ s.layoutWeights, weights ≠ [] →
          Scalar.lt 0.0 (Scalar.sum weights) = true) ∧
      ∀ e, ((ofRoster s.sorted r).stack? >>= fun g => g.spread?) = .error e →
        (∃ f, e = .settings f) ∧ ¬e.IsUnknown := by
  have hstack : (ofRoster s.sorted r).stack? = stacked s.sorted r <$>
      Layout.stack? s.world.height 0 (r.zones.map fun z => (z.name, z.heightWeight)) :=
    (map_eq_pure_bind _ _).symm
  rw [hstack, bind_map_left, ← exists_stack?_iff_stackable hr]
  cases hrows : Layout.stack? s.world.height 0 (r.zones.map fun z => (z.name, z.heightWeight)) with
  | error e =>
    obtain ⟨name, rfl⟩ := stack?_isEmptyZone hs hweights hheight hr hrows
    refine ⟨by simp, fun e he => ?_⟩
    obtain rfl := Except.error.inj he
    exact ⟨⟨_, rfl⟩, by rintro ⟨kind, name, hname⟩; cases hname⟩
  | ok rows =>
    have hlength : rows.length = r.zones.length := by simpa using Layout.stack?_length hrows
    obtain ⟨hspread, hrefused⟩ := exists_spread?_iff_widths hs hweights hwidth hr hlength
    rw [ok_bind, hspread]
    refine ⟨by simp, fun e he => ?_⟩
    obtain ⟨name, rfl⟩ := hrefused e he
    exact ⟨⟨_, rfl⟩, by rintro ⟨kind, name, hname⟩; cases hname⟩

/-- The verdict of the constructor. Within their bounds, settings are taken exactly when nothing that
is asked of them is missing. Others are refused as settings, and for an unknown name exactly when
names are unique and zones share the height, but something is not declared. -/
theorem build_verdict (hs : s.InBounds) (hweights : s.FiniteWeights)
    (hwidth : s.world.width < 2 ^ 53) (hheight : s.world.height < 2 ^ 53) :
    ((∃ g, (build s).outcome = .ok g) ↔ s.Buildable) ∧
      ∀ e, (build s).outcome = .error e → (∃ f, e = .settings f) ∧
        (e.IsUnknown ↔ s.Distinct ∧ s.zones ≠ [] ∧ Scalar.lt 0.0 s.totalHeight = true ∧
          ¬s.Declared) := by
  have hresolves := Roster.exists_resolve?_iff (s := s.sorted)
  rw [Settings.distinct_sorted, Settings.shares_sorted_iff hweights hs,
    Settings.declared_sorted] at hresolves
  rw [build_outcome]
  cases hroster : Roster.resolve? s.sorted with
  | error e =>
    obtain ⟨hsettings, hunknown⟩ := Roster.resolve?_eq_error hroster
    rw [Settings.distinct_sorted, Settings.shares_sorted_iff hweights hs] at hunknown
    have hnot : ¬(s.Distinct ∧ (s.zones ≠ [] ∧ Scalar.lt 0.0 s.totalHeight = true) ∧
        s.Declared) := by
      rw [← hresolves, hroster]
      simp
    refine ⟨iff_of_false (by simp) fun h => hnot ⟨h.distinct, ⟨h.zones_ne_nil, h.weighted⟩,
      h.declared⟩, fun e' he' => ?_⟩
    obtain rfl := Except.error.inj he'
    refine ⟨hsettings, hunknown.trans ?_⟩
    tauto
  | ok r =>
    obtain ⟨hdistinct, ⟨hzones, hweighted⟩, hdeclared⟩ := hresolves.mp ⟨r, hroster⟩
    obtain ⟨hlaid, hrefused⟩ :=
      layOut_verdict hs hweights hwidth hheight (Roster.resolve?_ok hroster)
    rw [ok_bind, hlaid]
    refine ⟨⟨fun h => ⟨hdistinct, hzones, hweighted, hdeclared, h.1, h.2⟩,
      fun h => ⟨h.stackable, h.spreadable⟩⟩, fun e he => ?_⟩
    obtain ⟨hsettings, hknown⟩ := hrefused e he
    exact ⟨hsettings, iff_of_false hknown fun h => h.2.2.2 hdeclared⟩

end Generator

/-- A sample in which a biome is to be placed on a climate that is not declared. -/
def Settings.astray : Settings Float :=
  { sample with
    biomes := [
      ("moss", ⟨(0, 255, 0), 1.0, .const 0.5, Span.full, ["high"], ["desert"], .ignore⟩),
      ("stone", ⟨(9, 9, 9), 0.5, .const 0.25, Span.full, [], ["steppe"], .ignore⟩)] }

namespace Generator

theorem build_verdict_sample : (Settings.sample : Settings Float).Buildable ∧
    ∃ e, (build Settings.astray).outcome = .error e ∧ e.IsUnknown := by
  obtain ⟨hbuilt, -⟩ := build_verdict (s := Settings.sample) (by decide)
    ⟨by decide, by decide⟩ (by decide) (by decide)
  obtain ⟨hrefused, herror⟩ := build_verdict (s := Settings.astray) (by decide)
    ⟨by decide, by decide⟩ (by decide) (by decide)
  have hsample := hbuilt.mp exists_build_sample
  have hundeclared : ¬Settings.astray.Declared := by
    intro h
    have hstone := (h.biomes _ (List.mem_cons_of_mem _ List.mem_cons_self)).2
    simp [Settings.astray, Settings.sample, Settings.sampleOf] at hstone
  refine ⟨hsample, ?_⟩
  cases he : (build Settings.astray).outcome with
  | ok g => exact absurd (hrefused.mp ⟨g, he⟩).declared hundeclared
  | error e =>
    refine ⟨e, rfl, (herror e he).2.mpr ⟨⟨?_, ?_, ?_⟩, ?_, hsample.weighted, hundeclared⟩⟩
    · simp [Settings.astray, Settings.sample, Settings.sampleOf]
    · simp [Settings.astray, Settings.sample, Settings.sampleOf]
    · simp [Settings.astray]
    · simp [Settings.astray, Settings.sample, Settings.sampleOf]

end Generator
end TileWorld
