import TileWorld.Proofs.Baking.UnitRange
import TileWorld.Proofs.Settings.Order
import TileWorld.Proofs.World.Zones

/-! Weights count against each other only. Wherever they are divided by their total, a factor that
all of them share cancels, and in exact arithmetic nothing is left of it. -/
namespace TileWorld

section Lists
variable {β : Type} {c : ℚ}

theorem Scalar.sum_scaled (c : ℚ) (weights : List ℚ) :
    sum (weights.map (c * ·)) = c * sum weights := by
  rw [sum_rat, sum_rat, List.sum_map_mul_left, List.map_id']

theorem Scalar.le_scaled_zero (hc : 0 < c) (total : ℚ) : le (c * total) 0.0 = le total 0.0 := by
  rw [Bool.eq_iff_iff, le_rat, le_rat, zero_rat, ← not_lt, ← not_lt, mul_pos_iff_of_pos_left hc]

/-- Entries whose weights carry one factor more. -/
def scaled (c : ℚ) (entries : List (ℚ × β)) : List (ℚ × β) :=
  entries.map fun e => (c * e.1, e.2)

@[simp] theorem map_fst_scaled (c : ℚ) (entries : List (ℚ × β)) :
    (scaled c entries).map Prod.fst = (entries.map Prod.fst).map (c * ·) := by
  rw [scaled, List.map_map, List.map_map]
  rfl

@[simp] theorem isEmpty_scaled (c : ℚ) (entries : List (ℚ × β)) :
    (scaled c entries).isEmpty = entries.isEmpty := List.isEmpty_map

end Lists

theorem Sampler.layered?_scaled {c : ℚ} (hc : 0 < c) (layers : List (ℚ × Sampler ℚ)) :
    layered? (scaled c layers) = layered? layers := by
  have hshares (total : ℚ) : (scaled c layers).map (fun l => (l.1 / (c * total), l.2)) =
      layers.map fun l => (l.1 / total, l.2) := by
    rw [scaled, List.map_map]
    refine List.map_congr_left fun l _ => ?_
    rw [Function.comp_apply, mul_div_mul_left _ _ hc.ne']
  simp only [layered?, map_fst_scaled, isEmpty_scaled, Scalar.sum_scaled, Scalar.le_scaled_zero hc,
    hshares]

namespace Brush
variable {c : ℚ}

/-- Running totals climb by the same shares. -/
theorem cumulative_scaled (hc : c ≠ 0) (total reached : ℚ) (children : List (ℚ × Brush ℚ)) :
    cumulative (c * total) reached (scaled c children) = cumulative total reached children := by
  induction children generalizing reached with
  | nil => rfl
  | cons child rest ih =>
    obtain ⟨w, b⟩ := child
    have hshare : c * w / (c * total) = w / total := mul_div_mul_left w total hc
    have hrest := ih (reached + w / total)
    rw [cumulative, ← hrest, ← hshare]
    rfl

theorem weighted?_scaled (hc : 0 < c) (s : Sampler ℚ) (children : List (ℚ × Brush ℚ)) :
    weighted? s (scaled c children) = weighted? s children := by
  simp only [weighted?, map_fst_scaled, isEmpty_scaled, Scalar.sum_scaled, Scalar.le_scaled_zero hc,
    cumulative_scaled hc.ne']

end Brush

namespace Layout
variable {c : ℚ}

/-- The cursor comes to the same shares of the width, whether it has passed the gap or not, so that
the columns are cut off alike. The induction runs along the cursor. -/
theorem Spread.columns?_scaled (hc : c ≠ 0) (s : Spread ℚ) (k : Nat) (cursor : ℚ)
    (weights : List ℚ) : Spread.columns? { s with total := c * s.total } k cursor
      (weights.map (c * ·)) = s.columns? k cursor weights := by
  induction weights generalizing k cursor with
  | nil => rfl
  | cons weight rest ih =>
    have hshare : (1.0 - s.gap) * (c * weight) / (c * s.total) =
        (1.0 - s.gap) * weight / s.total := by
      rw [mul_left_comm, mul_div_mul_left _ _ hc]
    simp only [List.map_cons, columns?, List.isEmpty_map, hshare, ih]

theorem spread?_scaled (hc : 0 < c) (zone : String) (width : Int) (gap : ℚ) (weights : List ℚ) :
    spread? zone width gap (weights.map (c * ·)) = spread? zone width gap weights := by
  have hcolumns (total : ℚ) (left : Nat) :=
    Spread.columns?_scaled hc.ne' ⟨width, gap, total, left⟩ 0 0.0 weights
  simp only [spread?, Scalar.sum_scaled, Scalar.le_scaled_zero hc, List.length_map, hcolumns]

end Layout

def ZoneSettings.rescaled (c : ℚ) (z : ZoneSettings ℚ) : ZoneSettings ℚ :=
  { z with heightWeight := c * z.heightWeight }

def ClimateSettings.rescaled (c : ℚ) (k : ClimateSettings ℚ) : ClimateSettings ℚ :=
  { k with widthWeight := c * k.widthWeight }

/-- Settings in which the height weights of all zones carry one factor more, and the width weights
of all climates another. -/
def Settings.rescaled (c d : ℚ) (s : Settings ℚ) : Settings ℚ :=
  { s with
    zones := s.zones.map (Prod.map id (ZoneSettings.rescaled c))
    climates := s.climates.map (Prod.map id (ClimateSettings.rescaled d)) }

def Climate.rescaled (c : ℚ) (k : Climate ℚ) : Climate ℚ :=
  { k with widthWeight := c * k.widthWeight }

def Roster.rescaled (c : ℚ) (r : Roster ℚ) : Roster ℚ :=
  { r with climates := r.climates.map (Climate.rescaled c) }

/-- A generator in which the width weights of all climates carry one factor more. -/
def Generator.rescaled (c : ℚ) (g : Generator ℚ) : Generator ℚ :=
  { g with toRoster := g.toRoster.rescaled c }

variable {c d : ℚ}

section Roster
variable (s : Settings ℚ)

@[simp] theorem Settings.rescaled_zoneNames :
    (s.rescaled c d).zones.map Prod.fst = s.zones.map Prod.fst := by
  rw [rescaled, List.map_map]
  rfl

@[simp] theorem Settings.rescaled_climateNames :
    (s.rescaled c d).climates.map Prod.fst = s.climates.map Prod.fst := by
  rw [rescaled, List.map_map]
  rfl

/-- Weights have no say in the order of entries. -/
theorem Settings.rescaled_sorted : (s.rescaled c d).sorted = s.sorted.rescaled c d := by
  have hzones : Order.ascending (fun a b => Scalar.lt b.2.priority a.2.priority)
      (s.zones.map (Prod.map id (ZoneSettings.rescaled c))) =
        (Order.ascending (fun a b => Scalar.lt b.2.priority a.2.priority) s.zones).map
          (Prod.map id (ZoneSettings.rescaled c)) :=
    Order.ascending_map _ (fun _ _ => rfl) s.zones
  have hclimates :=
    Order.byName_map (Prod.map id (ClimateSettings.rescaled d)) (fun _ => rfl) s.climates
  simp only [sorted, rescaled, hzones, hclimates]

theorem mapM_map_eq_map {β γ ε : Type} (f : β → β) (σ : γ → γ) {F : β → Except ε γ}
    (h : ∀ b, F (f b) = σ <$> F b) (bs : List β) :
    (bs.map f).mapM F = List.map σ <$> bs.mapM F := by
  rw [List.mapM_map]
  exact mapM_eq_map fun b _ => h b

/-- Zones keep their shares of the height, climates keep the factor of their weights. -/
theorem Roster.link?_rescaled (hc : 0 < c) : link? (s.rescaled c d) = rescaled d <$> link? s := by
  have hempty : (s.rescaled c d).zones.isEmpty = s.zones.isEmpty := List.isEmpty_map
  have htotal : Scalar.sum ((s.rescaled c d).zones.map (·.2.heightWeight)) =
      c * Scalar.sum (s.zones.map (·.2.heightWeight)) := by
    rw [← Scalar.sum_scaled, Settings.rescaled, List.map_map, List.map_map]
    rfl
  simp only [link?, Settings.rescaled_zoneNames, Settings.rescaled_climateNames, hempty, htotal,
    Scalar.le_scaled_zero hc]
  by_cases hnone : s.zones.isEmpty = true
  · simp [hnone]
  by_cases hweights : Scalar.le (Scalar.sum (s.zones.map (·.2.heightWeight))) 0.0 = true
  · simp [hnone, hweights]
  simp only [hnone, hweights, if_false, Bool.false_eq_true, Settings.rescaled]
  rw [mapM_map_eq_map _ (Prod.map id (Prod.map (ZoneSettings.rescaled c) id)) fun e => ?_]
  · rw [mapM_map_eq_map _ (Prod.map id (Prod.map (ClimateSettings.rescaled d) id)) fun e => ?_]
    · simp only [bind_map_left, map_bind, map_pure]
      refine bind_congr fun zones => bind_congr fun climates => bind_congr fun biomes => ?_
      have hrefs : (climates.map (Prod.map id (Prod.map (ClimateSettings.rescaled d) id))).map
          (fun e => e.2.2.1) = climates.map fun e => e.2.2.1 := by
        rw [List.map_map]
        rfl
      have hheight (w total : ℚ) : c * w / (c * total) = w / total :=
        mul_div_mul_left w total hc.ne'
      simp only [rescaled, hrefs, List.zipIdx_map, List.map_map, List.map_toArray]
      simp only [Function.comp_def, Prod.map, id, ZoneSettings.rescaled, ClimateSettings.rescaled,
        Climate.rescaled, hheight]
    · simp only [Prod.map, id, ClimateSettings.rescaled, map_bind, map_pure]
  · simp only [Prod.map, id, ZoneSettings.rescaled, map_bind, map_pure]

theorem Roster.resolve?_rescaled (hc : 0 < c) :
    resolve? (s.rescaled c d) = rescaled d <$> resolve? s := by
  have hbiomes : (s.rescaled c d).biomes = s.biomes := rfl
  simp only [resolve?, Settings.rescaled_zoneNames, Settings.rescaled_climateNames, hbiomes,
    link?_rescaled s hc, map_bind]

end Roster

namespace Generator

theorem widthWeight_rescaled (climates : Array (Climate ℚ)) (k : Nat) :
    widthWeight (climates.map (Climate.rescaled c)) k = c * widthWeight climates k := by
  unfold widthWeight
  rw [Array.getElem?_map]
  cases climates[k]? with
  | none =>
    show (0.0 : ℚ) = c * 0.0
    rw [Scalar.zero_rat, mul_zero]
  | some climate => rfl

theorem columns?_rescaled (hc : 0 < c) (g : Generator ℚ) (zone : String)
    (order : List (Nat × Interval)) :
    (g.rescaled c).columns? zone order = g.columns? zone order := by
  have hweights : (order.map fun e => widthWeight (g.rescaled c).climates e.1) =
      (order.map fun e => widthWeight g.climates e.1).map (c * ·) := by
    rw [List.map_map]
    exact List.map_congr_left fun e _ => widthWeight_rescaled g.climates e.1
  have hspread : Layout.spread? zone g.world.width g.spawnSize
      (order.map fun e => widthWeight (g.rescaled c).climates e.1) =
        Layout.spread? zone g.world.width g.spawnSize
          (order.map fun e => widthWeight g.climates e.1) := by
    rw [hweights, Layout.spread?_scaled hc]
  unfold columns?
  split_ifs
  · rfl
  · exact hspread

theorem spread?_rescaled (hc : 0 < c) (g : Generator ℚ) :
    (g.rescaled c).spread? = rescaled c <$> g.spread? :=
  spread?_map (rescaled c) g (fun _ _ => rfl) ⟨rfl, rfl, rfl⟩ (columns?_rescaled hc g)

theorem stack?_rescaled (g : Generator ℚ) : (g.rescaled c).stack? = rescaled c <$> g.stack? := by
  simp only [stack?, map_bind, map_pure]
  rfl

/-- The constructor lays out the same world, or rejects the settings for the same fault. -/
theorem build_rescaled (hc : 0 < c) (hd : 0 < d) (s : Settings ℚ) :
    (build (s.rescaled c d)).outcome = rescaled d <$> (build s).outcome := by
  rw [build_outcome, build_outcome, Settings.rescaled_sorted, Roster.resolve?_rescaled _ hc,
    bind_map_left, map_bind]
  refine bind_congr fun roster => ?_
  have hroster : ofRoster (s.sorted.rescaled c d) (roster.rescaled d) =
      (ofRoster s.sorted roster).rescaled d := rfl
  rw [hroster, stack?_rescaled, bind_map_left, map_bind]
  exact bind_congr fun g => spread?_rescaled hd g

end Generator

/-- The zones that the constructor lays out, with their rows and the columns of their climates. -/
def Generator.zonesOf (s : Settings ℚ) : Except Fault (List (Zone ℚ)) :=
  (fun g : Generator ℚ => g.zones) <$> (build s).outcome

/-- No constructor that divides weights by their total notices a positive factor that all of them
share. Weighted sums keep their shares, which add up to one, and selections their thresholds; zones
keep their rows and the columns of their climates; what is rejected is rejected alike. -/
theorem weights_scale_free (hc : 0 < c) (hd : 0 < d) :
    (∀ layers : List (ℚ × Sampler ℚ), Sampler.layered? (scaled c layers) = Sampler.layered? layers ∧
        (0 < (layers.map Prod.fst).sum → ∃ shares,
          Sampler.layered? layers = .ok (.layered shares) ∧ (shares.map Prod.fst).sum = 1)) ∧
      (∀ s (children : List (ℚ × Brush ℚ)),
        Brush.weighted? s (scaled c children) = Brush.weighted? s children) ∧
      ∀ s : Settings ℚ, Generator.zonesOf (s.rescaled c d) = Generator.zonesOf s := by
  refine ⟨fun layers => ⟨Sampler.layered?_scaled hc layers, fun htotal => ?_⟩,
    Brush.weighted?_scaled hc, fun s => ?_⟩
  · refine ⟨_, ?_, Sampler.sum_shares htotal⟩
    have hne : layers ≠ [] := by
      rintro rfl
      exact htotal.ne rfl
    rw [Sampler.layered?_eq_ok, Scalar.sum_rat, Scalar.zero_rat]
    exact ⟨⟨List.isEmpty_eq_false_iff.mpr hne, decide_eq_false htotal.not_ge⟩, rfl⟩
  · rw [Generator.zonesOf, Generator.build_rescaled hc hd, Functor.map_map]
    rfl

/-- A sample is laid out alike with three times the height weights and five times the width weights,
and one and three parts are quarters also when they are counted threefold. -/
theorem weights_scale_free_sample :
    Generator.zonesOf (Settings.sample.rescaled 3 5) = Generator.zonesOf Settings.sample ∧
      Sampler.layered? (scaled 3 [(1, .across), (3, .down)]) =
        .ok (.layered [(1 / 4, .across), (3 / 4, .down)]) := by
  obtain ⟨hlayered, -, hzones⟩ := weights_scale_free (c := 3) (d := 5) (by norm_num) (by norm_num)
  refine ⟨hzones Settings.sample, ?_⟩
  rw [(hlayered _).1, Sampler.layered?_eq_ok, Scalar.sum_rat, Scalar.zero_rat]
  norm_num [Scalar.le]

end TileWorld
