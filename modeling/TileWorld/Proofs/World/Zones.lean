import TileWorld.Proofs.Outcome
import TileWorld.Proofs.Random.Permute
import TileWorld.Proofs.Region.Tiling
import TileWorld.Proofs.World.Roster
import TileWorld.World.Generator

/-! Zones stacked over the height of a world. What the constructor returns is a resolved roster,
stacked and then spread; stacking gives every row to exactly one zone, and spreading keeps rows. -/
namespace TileWorld
variable {α : Type} [Scalar α]

namespace Layout

theorem stack?_cons {height top : Int} {name : String} {weight : α} {rest : List (String × α)}
    {rows : List Interval} :
    stack? height top ((name, weight) :: rest) = .ok rows ↔
      ∃ n others, (if rest.isEmpty then .ok (height - top) else Scalar.scale? height weight) = .ok n ∧
        0 < n ∧ stack? height (top + n) rest = .ok others ∧ rows = ⟨top, top + n⟩ :: others := by
  have hstep (n : Int) : (if n ≤ 0 then throw (Fault.settings (.emptyZone name)) else
        stack? height (top + n) rest >>= fun others => pure (⟨top, top + n⟩ :: others)) = .ok rows ↔
      ∃ others, 0 < n ∧ stack? height (top + n) rest = .ok others ∧
        rows = ⟨top, top + n⟩ :: others := by
    by_cases hn : n ≤ 0
    · simp [hn, Int.not_lt.mpr hn]
    · simp only [hn, if_false, bind_eq_ok, pure_eq_ok, Except.ok.injEq, Int.not_le.mp hn, true_and]
      exact exists_congr fun others => and_congr_right fun _ => eq_comm
  rw [stack?]
  by_cases hrest : rest.isEmpty
  · simpa [hrest] using hstep (height - top)
  · simp only [hrest, Bool.false_eq_true, if_false, bind_eq_ok, throw_eq_error, error_bind]
    constructor
    · rintro ⟨n, hn, h⟩
      obtain ⟨others, h⟩ := (hstep n).mp h
      exact ⟨n, others, hn, h⟩
    · rintro ⟨n, others, hn, h⟩
      exact ⟨n, hn, (hstep n).mpr ⟨others, h⟩⟩

theorem stack?_length {height top : Int} {zones : List (String × α)} {rows : List Interval}
    (h : stack? height top zones = .ok rows) : rows.length = zones.length := by
  induction zones generalizing top rows with
  | nil => simp_all [stack?]
  | cons zone rest ih =>
    obtain ⟨n, others, hn, hpos, hrest, rfl⟩ := stack?_cons.mp h
    simp [ih hrest]

/-- Rows end with the world or are cut off from its height. -/
theorem stack?_cut {height top : Int} {zones : List (String × α)} {rows : List Interval}
    (h : stack? height top zones = .ok rows) {r : Interval} (hr : r ∈ rows) :
    r.stop = height ∨ ∃ weight : α, Scalar.scale? height weight = .ok r.extent := by
  induction zones generalizing top rows with
  | nil =>
    obtain rfl : rows = [] := by simpa [stack?, eq_comm] using h
    simp at hr
  | cons zone rest ih =>
    obtain ⟨n, others, hn, -, hrest, rfl⟩ := stack?_cons.mp h
    rcases List.mem_cons.mp hr with rfl | hr
    · split_ifs at hn
      · obtain rfl : height - top = n := Except.ok.inj hn
        exact Or.inl (by show top + (height - top) = height; omega)
      · refine Or.inr ⟨zone.2, ?_⟩
        rw [hn, Interval.extent, add_sub_cancel_left]
    · exact ih hrest hr

/-- Truncated shares and the remainder of the last zone cover the height end to end. -/
theorem stack?_tiles {height top : Int} {zones : List (String × α)} {rows : List Interval}
    (hzones : zones ≠ []) (h : stack? height top zones = .ok rows) :
    Interval.Tiles top height rows := by
  induction zones generalizing top rows with
  | nil => exact absurd rfl hzones
  | cons zone rest ih =>
    obtain ⟨n, others, hn, hpos, hrest, rfl⟩ := stack?_cons.mp h
    refine ⟨rfl, show top < top + n by omega, ?_⟩
    cases rest with
    | nil =>
      obtain rfl : height - top = n := by simpa using hn
      obtain rfl : others = [] := by simpa [stack?] using hrest.symm
      exact show top + (height - top) = height by omega
    | cons next rest => exact ih (List.cons_ne_nil next rest) hrest

end Layout

namespace Generator

/-- Laying out the climates of a zone puts them in an order, their own without shuffling, and gives
them columns. Nothing else about the zone changes. -/
def SpreadsTo (g : Generator α) (z z' : Zone α) : Prop :=
  ∃ order columns, order.Perm z.climates ∧ (g.shuffleClimates = false → order = z.climates) ∧
    g.columns? z.name order = .ok columns ∧
    z' = { z with climates := List.zip (order.map Prod.fst) columns }

theorem spreadZones_ok {g : Generator α} {zones zones' : List (Zone α)} {stream stream' : Stream}
    (h : g.spreadZones zones stream = (zones', stream', none)) :
    List.Forall₂ g.SpreadsTo zones zones' := by
  induction zones generalizing zones' stream with
  | nil =>
    obtain rfl : zones' = [] := by simpa [spreadZones, eq_comm] using congrArg Prod.fst h
    exact List.Forall₂.nil
  | cons z rest ih =>
    rw [spreadZones] at h
    generalize hdrawn : (if g.shuffleClimates then stream.permute z.climates
      else (z.climates, stream)) = drawn at h
    obtain ⟨order, stream₁⟩ := drawn
    have hperm : order.Perm z.climates ∧ (g.shuffleClimates = false → order = z.climates) := by
      cases hshuffle : g.shuffleClimates with
      | false => simp_all
      | true =>
        refine ⟨?_, by simp⟩
        have := Stream.permute_perm z.climates stream
        simp_all
    cases hcolumns : g.columns? z.name order with
    | error e => simp [hcolumns] at h
    | ok columns =>
      simp only [hcolumns] at h
      generalize hrest : g.spreadZones rest stream₁ = spread at h
      obtain ⟨rest', stream₂, fault⟩ := spread
      simp only [Prod.mk.injEq] at h
      obtain ⟨rfl, rfl, rfl⟩ := h
      exact List.Forall₂.cons ⟨order, columns, hperm.1, hperm.2, hcolumns, rfl⟩ (ih hrest)

/-- What changes neither the zones of a generator nor the columns it gives them may as well be done
after climates are spread. -/
theorem spread?_map (σ : Generator α → Generator α) (g : Generator α)
    (hset : ∀ zones stream, { σ g with zones, stream } = σ { g with zones, stream })
    (hkept : (σ g).zones = g.zones ∧ (σ g).stream = g.stream ∧
      (σ g).shuffleClimates = g.shuffleClimates)
    (hcolumns : ∀ zone order, (σ g).columns? zone order = g.columns? zone order) :
    (σ g).spread? = σ <$> g.spread? := by
  obtain ⟨hzones, hstream, hshuffle⟩ := hkept
  have hspread (zones : List (Zone α)) (stream : Stream) :
      (σ g).spreadZones zones stream = g.spreadZones zones stream := by
    induction zones generalizing stream with
    | nil => rfl
    | cons z rest ih => simp only [spreadZones, hshuffle, hcolumns, ih]
  unfold spread? spread
  rw [hzones, hstream, hspread]
  rcases g.spreadZones g.zones g.stream with ⟨zones, stream, _ | e⟩
  · exact congrArg Except.ok (hset zones stream)
  · rfl

theorem spread?_ok {g g' : Generator α} (h : g.spread? = .ok g') :
    ∃ zones stream, g' = { g with zones, stream } ∧ List.Forall₂ g.SpreadsTo g.zones zones := by
  unfold spread? spread at h
  generalize hzones : g.spreadZones g.zones g.stream = spread at h
  obtain ⟨zones, stream, _ | e⟩ := spread
  · obtain rfl : _ = g' := by simpa using h
    exact ⟨zones, stream, rfl, spreadZones_ok hzones⟩
  · simp at h

/-- A roster whose zones take given rows of a world, before its climates are spread. -/
def stacked (s : Settings α) (roster : Roster α) (rows : List Interval) : Generator α :=
  { ofRoster s roster with zones := List.zipWith (fun z rows => { z with rows }) roster.zones rows }

/-- What the constructor returns, its reports aside. -/
theorem build_outcome (s : Settings α) :
    (build s).outcome = (do
      let roster ← Roster.resolve? s.sorted
      let g ← (ofRoster s.sorted roster).stack?
      g.spread?) := by
  simp only [build, stack, Logged.outcome_bind, Logged.outcome_lift, Logged.outcome_pure,
    Logged.outcome_note, ok_bind]
  cases Roster.resolve? s.sorted with
  | error e => rfl
  | ok roster =>
    cases h : (ofRoster s.sorted roster).stack? with
    | error e => simp [h]
    | ok g => cases hg : g.spread? <;> simp [h, hg]

theorem build_ok {s : Settings α} {g : Generator α} (h : (build s).outcome = .ok g) :
    ∃ roster rows, Roster.Resolves s.sorted roster ∧
      Layout.stack? s.world.height 0 (roster.zones.map fun z => (z.name, z.heightWeight)) = .ok rows ∧
      ∃ zones stream, g = { stacked s.sorted roster rows with zones, stream } ∧
        List.Forall₂ (stacked s.sorted roster rows).SpreadsTo
          (stacked s.sorted roster rows).zones zones := by
  simp only [build_outcome, bind_eq_ok] at h
  obtain ⟨roster, hroster, g₁, hstack, hspread⟩ := h
  unfold stack? at hstack
  obtain ⟨rows, hrows, hg⟩ := bind_eq_ok.mp hstack
  obtain rfl : stacked s.sorted roster rows = g₁ := Except.ok.inj hg
  exact ⟨roster, rows, Roster.resolve?_ok hroster, hrows, spread?_ok hspread⟩

/-- What the constructor takes over from the settings as it is. -/
theorem build_settings {s : Settings α} {g : Generator α} (h : (build s).outcome = .ok g) :
    g.world = s.world ∧ g.spawnSize = s.spawnSize ∧ g.heightTransition = s.heightTransition ∧
      g.transition = s.transition.getD defaultTransition ∧
      g.shuffleClimates = s.shuffleClimates := by
  obtain ⟨roster, rows, -, -, zones, stream, rfl, -⟩ := build_ok h
  exact ⟨rfl, rfl, rfl, rfl, rfl⟩

theorem stacked_rows {s : Settings α} {roster : Roster α} {rows : List Interval}
    (h : rows.length = roster.zones.length) : (stacked s roster rows).zones.map (·.rows) = rows := by
  rw [stacked, ← List.map_uncurry_zip_eq_zipWith, List.map_map]
  exact List.map_snd_zip h.le

theorem stacked_zone {s : Settings α} {roster : Roster α} {rows : List Interval} {k : Nat}
    {z : Zone α} (h : (stacked s roster rows).zones[k]? = some z) :
    ∃ z₀ rows', roster.zones[k]? = some z₀ ∧ z = { z₀ with rows := rows' } := by
  simp only [stacked, List.getElem?_zipWith] at h
  split at h
  · rename_i z₀ rows' hz₀ _
    exact ⟨z₀, rows', hz₀, (Option.some.inj h).symm⟩
  · simp at h

theorem SpreadsTo.rows_eq {g : Generator α} {z z' : Zone α} (h : g.SpreadsTo z z') :
    z'.rows = z.rows := by
  obtain ⟨order, columns, -, -, -, rfl⟩ := h
  rfl

/-- Spread zones keep the rows they were stacked on. -/
theorem build_stack {s : Settings α} {g : Generator α} (h : (build s).outcome = .ok g) :
    ∃ zones : List (String × α), zones ≠ [] ∧
      Layout.stack? s.world.height 0 zones = .ok (g.zones.map (·.rows)) := by
  obtain ⟨roster, rows, hroster, hrows, zones, stream, rfl, hzones⟩ := build_ok h
  have hne : roster.zones ≠ [] := fun hnil =>
    hroster.zones_ne_nil (List.forall₂_nil_right_iff.mp (hnil ▸ hroster.zones))
  have hlength : rows.length = roster.zones.length := by
    simpa using Layout.stack?_length hrows
  have hsame : zones.map (·.rows) = rows := by
    rw [← stacked_rows hlength, ← List.forall₂_eq_eq_eq, List.forall₂_map_left_iff,
      List.forall₂_map_right_iff]
    exact List.Forall₂.flip (hzones.imp fun z z' hz => hz.rows_eq)
  have hstack : Layout.stack? s.world.height 0
      (roster.zones.map fun z => (z.name, z.heightWeight)) = .ok (zones.map (·.rows)) :=
    hrows.trans (congrArg Except.ok hsame.symm)
  exact ⟨_, mt List.map_eq_nil_iff.mp hne, hstack⟩

theorem build_rows {s : Settings α} {g : Generator α} (h : (build s).outcome = .ok g) :
    g.zones ≠ [] ∧ Interval.Tiles 0 s.world.height (g.zones.map (·.rows)) := by
  obtain ⟨zones, hne, hstack⟩ := build_stack h
  refine ⟨fun hnil => hne (List.length_eq_zero_iff.mp ?_), Layout.stack?_tiles hne hstack⟩
  rw [← Layout.stack?_length hstack, hnil, List.map_nil, List.length_nil]

/-- What is laid out in a zone: the climates that refer to it, in some order, with columns. -/
theorem build_climates {s : Settings α} {g : Generator α} (h : (build s).outcome = .ok g) {k : Nat}
    {z : Zone α} (hz : g.zones[k]? = some z) :
    ∃ order columns,
      (order.map Prod.fst).Perm (referrers (g.climates.toList.map (·.zones)) k) ∧
      (s.shuffleClimates = false →
        order.map Prod.fst = referrers (g.climates.toList.map (·.zones)) k) ∧
      g.columns? z.name order = .ok columns ∧
      z.climates = List.zip (order.map Prod.fst) columns := by
  obtain ⟨roster, rows, hroster, -, zones, stream, rfl, hzones⟩ := build_ok h
  obtain ⟨z₁, hz₁, order, columns, hperm, hfixed, hcolumns, rfl⟩ := forall₂_getElem? hzones hz
  obtain ⟨z₀, rows', hz₀, rfl⟩ := stacked_zone hz₁
  have hclimates := hroster.zoneClimates k z₀ hz₀
  have hids : z₀.climates.map Prod.fst = referrers (roster.climates.toList.map (·.zones)) k := by
    rw [hclimates, List.map_map]
    exact List.map_id _
  refine ⟨order, columns, ?_, ?_, hcolumns, rfl⟩
  · exact hids ▸ hperm.map Prod.fst
  · intro hshuffle
    rw [hfixed hshuffle]
    exact hids

/-- The rows of the zones, taken in order, partition the rows of the world: none is empty, each
zone starts where the one above it stops, and every row of the world lies in exactly one. -/
theorem zones_partition_rows {s : Settings α} {g : Generator α} (h : (build s).outcome = .ok g) :
    g.zones ≠ [] ∧ Interval.Tiles 0 s.world.height (g.zones.map (·.rows)) ∧
      ∀ y, 0 ≤ y → y < s.world.height →
        ∃! k : Nat, ∃ z, g.zones[k]? = some z ∧ z.rows.contains y = true := by
  obtain ⟨hne, htiles⟩ := build_rows h
  refine ⟨hne, htiles, fun y hy hy' => ?_⟩
  simpa [List.getElem?_map] using htiles.existsUnique hy hy'

end Generator

/-- Two zones, the lower one declared first, and three climates of given widths. -/
def Settings.sampleOf (world : World) (spawnSize desert marsh tundra : α) : Settings α where
  zones := [
    ("low", ⟨3.0, 1.0, 1.0, ⟨0.25, 0.5, "moss", "stone"⟩⟩),
    ("high", ⟨1.0, 0.0, 0.0, ⟨0.5, 0.0, "moss", "moss"⟩⟩)]
  climates := [
    ("desert", ⟨.oval 0.0, desert, 0.5, ⟨0.5, 0.0, "stone", "stone"⟩, ["low"]⟩),
    ("marsh", ⟨.rectangle 0.0, marsh, 1.0, ⟨0.5, 0.0, "moss", "stone"⟩, ["low", "high"]⟩),
    ("tundra", ⟨.triangle 0.5, tundra, 1.0, ⟨0.5, 0.0, "moss", "stone"⟩, ["high", "low"]⟩)]
  biomes := [
    ("moss", ⟨(0, 255, 0), 1.0, .const 0.5, Span.full, ["high"], ["desert"], .ignore⟩),
    ("stone", ⟨(9, 9, 9), 0.5, .const 0.25, Span.full, [], ["tundra"], .ignore⟩)]
  world := world
  spawnSize := spawnSize
  heightTransition := 0.5
  transition := some (.const 0.5)
  shuffleClimates := false

/-- A sample in which one climate has no width. -/
def Settings.sample : Settings α := sampleOf ⟨8, 7, 1⟩ 0.25 2.0 0.0 1.0

/-- A sample whose moss settles on the upper rows alone, with a tile for each biome. -/
def Settings.tiled : Settings α :=
  { sample with
    biomes := [
      ("moss", ⟨(0, 255, 0), 0.5, .const 0.5, ⟨0.0, 0.25⟩, ["high"], ["desert"], .fill (.int 3)⟩),
      ("stone", ⟨(9, 9, 9), 0.5, .const 0.25, Span.full, [], ["tundra"], .fill (.int 4)⟩)] }

section Sample
variable {s : Settings α}

/-- Settings whose entries have the names and priorities of a sample's. -/
structure Settings.NamedAsSample (s : Settings α) : Prop where
  zones : s.zones.map (fun e => (e.1, e.2.priority)) = [("low", 1.0), ("high", 0.0)]
  climates : s.climates.map Prod.fst = ["desert", "marsh", "tundra"]
  biomes : s.biomes.map Prod.fst = ["moss", "stone"]

namespace Settings.NamedAsSample

theorem zoneNames (hs : s.NamedAsSample) : s.zones.map Prod.fst = ["low", "high"] := by
  simpa [Function.comp_def] using congrArg (List.map Prod.fst) hs.zones

theorem ascending (hs : s.NamedAsSample) (h : Scalar.lt (0.0 : α) 1.0 = true) :
    Order.ascending (fun a b => Scalar.lt b.2.priority a.2.priority) s.zones = s.zones.reverse := by
  obtain ⟨low, rest, hzones, hlow, hrest⟩ := List.map_eq_cons_iff.mp hs.zones
  obtain ⟨high, rest, rfl, hhigh, hrest⟩ := List.map_eq_cons_iff.mp hrest
  obtain rfl := List.map_eq_nil_iff.mp hrest
  rw [Prod.mk.injEq] at hlow hhigh
  simp [hzones, Order.ascending, Order.place, hlow, hhigh, h]

theorem sorted (hs : s.NamedAsSample) (h : Scalar.lt (0.0 : α) 1.0 = true) :
    s.sorted = { s with zones := s.zones.reverse } := by
  have hclimates : (s.climates.map Prod.fst).Pairwise (· ≤ ·) := by simp [hs.climates]
  have hbiomes : (s.biomes.map Prod.fst).Pairwise (· ≤ ·) := by simp [hs.biomes]
  rw [Settings.sorted, hs.ascending h, Order.byName_of_pairwise (List.pairwise_map.mp hclimates),
    Order.byName_of_pairwise (List.pairwise_map.mp hbiomes)]

end Settings.NamedAsSample

/-- What the constructor makes of settings named as a sample, of which only the zones are to be put
in order. -/
def Settings.sampled? (s : Settings α) : Except Fault (Generator α) := do
  let s := { s with zones := s.zones.reverse }
  let g ← (Generator.ofRoster s (← Roster.link? s)).stack?
  g.spread?

theorem Generator.build_of_namedAsSample (hs : s.NamedAsSample)
    (h : Scalar.lt (0.0 : α) 1.0 = true) : (build s).outcome = s.sampled? := by
  rw [build_outcome, hs.sorted h, Roster.resolve?_of_nodup]
  · rfl
  · simp [List.map_reverse, hs.zoneNames]
  · simp [hs.climates]
  · simp [hs.biomes]

theorem Generator.exists_build_of_namedAsSample (hs : s.NamedAsSample)
    (h : Scalar.lt (0.0 : α) 1.0 = true) (p : Generator α → Bool)
    (hp : s.sampled?.toOption.any p = true) : ∃ g, (build s).outcome = .ok g ∧ p g = true := by
  rw [← build_of_namedAsSample hs h, Option.any_eq_true] at hp
  obtain ⟨g, hg, hp⟩ := hp
  exact ⟨g, toOption_eq_some.mp hg, hp⟩

theorem Settings.sample_named : (sample : Settings α).NamedAsSample := ⟨rfl, rfl, rfl⟩

theorem Settings.tiled_named : (tiled : Settings α).NamedAsSample := ⟨rfl, rfl, rfl⟩

end Sample

namespace Generator

theorem exists_build_sample :
    ∃ g, (build (Settings.sample : Settings Float)).outcome = .ok g := by
  obtain ⟨g, hg, -⟩ := exists_build_of_namedAsSample Settings.sample_named (by decide)
    (fun (_ : Generator Float) => true) (by decide +kernel)
  exact ⟨g, hg⟩

theorem zones_partition_rows_sample : ∃ g : Generator Float,
    (build Settings.sample).outcome = .ok g ∧ g.zones ≠ [] ∧
      Interval.Tiles 0 7 (g.zones.map (·.rows)) ∧
      ∀ y, 0 ≤ y → y < 7 → ∃! k : Nat, ∃ z, g.zones[k]? = some z ∧ z.rows.contains y = true := by
  obtain ⟨g, hg⟩ := exists_build_sample
  exact ⟨g, hg, zones_partition_rows hg⟩

end Generator
end TileWorld
