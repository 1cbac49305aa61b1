import TileWorld.Proofs.World.Coverage
import TileWorld.Proofs.World.Positions

/-! Generators that differ in where their biomes and climates stand. Positions are never compared
with each other, and nothing is read off them but what stands there, so that cells get the same biomes
under their new positions. -/
namespace TileWorld
variable {α : Type}

/-- A producer whose biomes have moved. -/
def Producer.renamed (σ : Nat → Nat) (p : Producer α) : Producer α :=
  { p with surface := σ p.surface, cave := σ p.cave }

/-- An ink whose biomes have moved. -/
def Ink.renamed (σ : Nat → Nat) : Ink α → Ink α
  | .producer p => .producer (p.renamed σ)
  | .biome k => .biome (σ k)

/-- A layer whose biomes have moved. -/
def Layer.renamed (σ : Nat → Nat) (layer : Layer) : Layer := fun x y => Option.map σ <$> layer x y

/-- A zone whose biomes and climates have moved. -/
def Zone.renamed (σ τ : Nat → Nat) (z : Zone α) : Zone α :=
  { z with
    producer := z.producer.renamed σ
    climates := z.climates.map (Prod.map τ id)
    biomes := z.biomes.map σ }

/-- A climate whose biomes have moved, whatever zones it refers to. -/
structure Climate.Renames (σ : Nat → Nat) (c c' : Climate α) : Prop where
  name : c'.name = c.name
  shape : c'.shape = c.shape
  widthWeight : c'.widthWeight = c.widthWeight
  depth : c'.depth = c.depth
  producer : c'.producer = c.producer.renamed σ
  biomes : c'.biomes = c.biomes.map σ

/-- Biomes that are placed and painted alike, whatever zones and climates they refer to. -/
structure Biome.Alike (b b' : Biome α) : Prop where
  name : b'.name = b.name
  ratio : b'.ratio = b.ratio
  selection : b'.selection = b.selection
  heightRange : b'.heightRange = b.heightRange
  painter : b'.painter = b.painter

@[simp] theorem Producer.biome_renamed (σ : Nat → Nat) (p : Producer α) (part : Stratum) :
    (p.renamed σ).biome part = σ (p.biome part) := by
  cases part <;> rfl

@[simp] theorem Producer.renamed_id (p : Producer α) : p.renamed id = p := rfl

@[simp] theorem Zone.renamed_id (z : Zone α) : z.renamed id id = z := by
  simp [Zone.renamed]

theorem Generator.inks_renamed (σ : Nat → Nat) (p : Producer α) (biomes : List Nat) :
    inks (p.renamed σ) (biomes.map σ) = (inks p biomes).map (Ink.renamed σ) := by
  simp [inks, Ink.renamed, Function.comp_def]

variable [Scalar α]

theorem Producer.biomeAt?_renamed (σ : Nat → Nat) (p : Producer α) (area : Window)
    (rough : Int → Int → Except Fault α) (x y : Int) :
    (p.renamed σ).biomeAt? area rough x y = σ <$> p.biomeAt? area rough x y := by
  unfold biomeAt?
  rw [map_bind]
  refine bind_congr fun depth => ?_
  rw [Functor.map_map]
  exact congrArg (· <$> _) (funext fun part => biome_renamed σ p part)

theorem Biome.Alike.selects? {b b' : Biome α} (h : b.Alike b') :
    Generator.selects? b' = Generator.selects? b := by
  funext worldHeight fade selection x y
  simp only [Generator.selects?, h.ratio, h.heightRange]

namespace Generator

/-- A generator of the same world whose biomes and climates are found at other positions. -/
structure Renames (σ τ : Nat → Nat) (g g' : Generator α) : Prop where
  world : g'.world = g.world
  spawnSize : g'.spawnSize = g.spawnSize
  heightTransition : g'.heightTransition = g.heightTransition
  transition : g'.transition = g.transition
  climates : ∀ k, Option.Rel (Climate.Renames σ) g.climates[k]? g'.climates[τ k]?
  biomes : ∀ k, Option.Rel Biome.Alike g.biomes[k]? g'.biomes[σ k]?

namespace Renames
variable {σ τ : Nat → Nat} {g g' : Generator α} {area : Context} {outline : Option (Shape α)}
variable {x y : Int} {z : Zone α}

section Layout

theorem widthWeight (h : g.Renames σ τ g') (k : Nat) :
    Generator.widthWeight g'.climates (τ k) = Generator.widthWeight g.climates k := by
  have hc := h.climates k
  unfold Generator.widthWeight
  generalize g.climates[k]? = o at hc ⊢
  generalize g'.climates[τ k]? = o' at hc ⊢
  cases hc with
  | none => rfl
  | some hc => exact hc.widthWeight

theorem columns? (h : g.Renames σ τ g') (zone : String) (climates : List (Nat × Interval)) :
    g'.columns? zone (climates.map (Prod.map τ id)) = g.columns? zone climates := by
  simp only [Generator.columns?, List.isEmpty_map, h.world, h.spawnSize, List.map_map,
    Function.comp_def, Prod.map_fst, h.widthWeight]

/-- Climates are drawn in the same order and given the same columns. -/
theorem spreadZones (h : g.Renames σ τ g') (hshuffle : g'.shuffleClimates = g.shuffleClimates)
    (zones : List (Zone α)) (stream : Stream) :
    g'.spreadZones (zones.map (Zone.renamed σ τ)) stream =
      Prod.map (List.map (Zone.renamed σ τ)) id (g.spreadZones zones stream) := by
  induction zones generalizing stream with
  | nil => rfl
  | cons z rest ih =>
    have hdrawn : (if g'.shuffleClimates then stream.permute (z.renamed σ τ).climates
        else ((z.renamed σ τ).climates, stream)) =
          Prod.map (List.map (Prod.map τ id)) id
            (if g.shuffleClimates then stream.permute z.climates else (z.climates, stream)) := by
      rw [hshuffle]
      split_ifs
      · exact Stream.permute_map (Prod.map τ id) z.climates stream
      · rfl
    rw [List.map_cons, Generator.spreadZones, Generator.spreadZones, hdrawn]
    generalize (if g.shuffleClimates then stream.permute z.climates else (z.climates, stream)) = drawn
    obtain ⟨order, stream⟩ := drawn
    simp only [Prod.map_apply, id]
    have hname : (z.renamed σ τ).name = z.name := rfl
    rw [hname, h.columns?]
    cases g.columns? z.name order with
    | error e => rfl
    | ok columns =>
      have hzip : List.zip ((order.map (Prod.map τ id)).map Prod.fst) columns =
          (List.zip (order.map Prod.fst) columns).map (Prod.map τ id) := by
        rw [← List.zip_map_left, List.map_map, List.map_map]
        rfl
      simp only [ih, hzip]
      rfl

theorem spread? (h : g.Renames σ τ g') (hzones : g'.zones = g.zones.map (Zone.renamed σ τ))
    (hshuffle : g'.shuffleClimates = g.shuffleClimates) (hstream : g'.stream = g.stream)
    {g₁ : Generator α} (hg : g.spread? = .ok g₁) :
    ∃ g₁', g'.spread? = .ok g₁' ∧ g₁.Renames σ τ g₁' ∧
      g₁'.zones = g₁.zones.map (Zone.renamed σ τ) := by
  have hspread := h.spreadZones hshuffle g.zones g.stream
  unfold Generator.spread? Generator.spread at hg ⊢
  rw [hzones, hstream, hspread]
  generalize g.spreadZones g.zones g.stream = spread at hg ⊢
  obtain ⟨zones, stream, _ | e⟩ := spread
  · obtain rfl := Except.ok.inj hg
    exact ⟨_, rfl, ⟨h.world, h.spawnSize, h.heightTransition, h.transition, h.climates, h.biomes⟩, rfl⟩
  · simp at hg

end Layout

section Rule
variable [NoiseSource α]

theorem producerAt? (h : g.Renames σ τ g') (p : Producer α) :
    g'.producerAt? area (p.renamed σ) x y = σ <$> g.producerAt? area p x y := by
  unfold Generator.producerAt?
  rw [h.transition, map_bind]
  exact bind_congr fun rough => p.biomeAt?_renamed σ _ rough x y

theorem settlesAt? (h : g.Renames σ τ g') (k : Nat) :
    g'.settlesAt? area (σ k) x y = g.settlesAt? area k x y := by
  have hb := h.biomes k
  unfold Generator.settlesAt?
  rw [h.world, h.heightTransition]
  generalize g.biomes[k]? = o at hb ⊢
  generalize g'.biomes[σ k]? = o' at hb ⊢
  cases hb with
  | none => rfl
  | some hb => simp only [hb.selection, hb.selects?]

theorem biomeOver? (h : g.Renames σ τ g') (below k : Nat) :
    g'.biomeOver? area x y (σ below) (σ k) = σ <$> g.biomeOver? area x y below k := by
  unfold Generator.biomeOver?
  rw [h.settlesAt?, map_bind]
  refine bind_congr fun settles => ?_
  cases settles <;> rfl

theorem biomeIn? (h : g.Renames σ τ g') (p : Producer α) (biomes : List Nat) :
    g'.biomeIn? area (p.renamed σ) (biomes.map σ) x y = σ <$> g.biomeIn? area p biomes x y := by
  unfold Generator.biomeIn?
  rw [h.producerAt?, bind_map_left, map_bind]
  exact bind_congr fun below => foldlM_map_map (fun k _ below => h.biomeOver? below k) below

variable [SquareRoot α]

theorem climateOver? (h : g.Renames σ τ g') (below : Nat) (e : Nat × Interval) :
    g'.climateOver? (z.renamed σ τ) x y (σ below) (Prod.map τ id e) =
      σ <$> g.climateOver? z x y below e := by
  have hc := h.climates e.1
  unfold Generator.climateOver?
  rw [h.world, Prod.map_fst]
  generalize g.climates[e.1]? = o at hc ⊢
  generalize g'.climates[τ e.1]? = o' at hc ⊢
  cases hc with
  | none => rfl
  | some hc =>
    simp only [hc.depth, hc.shape, hc.producer, hc.biomes, h.biomeIn?, map_bind]
    refine bind_congr fun area => ?_
    split_ifs
    · rw [map_bind]
      refine bind_congr fun inside => ?_
      cases inside <;> rfl
    · rfl

theorem biomeOn? (h : g.Renames σ τ g') :
    g'.biomeOn? (z.renamed σ τ) x y = σ <$> g.biomeOn? z x y := by
  unfold Generator.biomeOn?
  have hbelow : g'.biomeIn? (Context.ofZone g'.world (z.renamed σ τ).rows) (z.renamed σ τ).producer
      (z.renamed σ τ).biomes x y =
        σ <$> g.biomeIn? (Context.ofZone g.world z.rows) z.producer z.biomes x y := by
    rw [h.world]
    exact h.biomeIn? z.producer z.biomes
  rw [hbelow, bind_map_left, map_bind]
  exact bind_congr fun below => foldlM_map_map (fun e _ below => h.climateOver? below e) below

/-- The rule of a cell gives the same biome under its new position. -/
theorem biomeAt? (h : g.Renames σ τ g') (hzones : g'.zones = g.zones.map (Zone.renamed σ τ)) :
    g'.biomeAt? x y = σ <$> g.biomeAt? x y := by
  have hfind : g'.zones.find? (·.rows.contains y) =
      (g.zones.find? (·.rows.contains y)).map (Zone.renamed σ τ) := by
    rw [hzones, List.find?_map]
    rfl
  unfold Generator.biomeAt?
  rw [hfind]
  cases g.zones.find? (·.rows.contains y) with
  | none => rfl
  | some z => exact h.biomeOn?

end Rule

section Fills
variable [NoiseSource α] [SquareRoot α]

theorem layer? (h : g.Renames σ τ g') (ink : Ink α) :
    g'.layer? area outline (ink.renamed σ) = Layer.renamed σ <$> g.layer? area outline ink := by
  cases ink with
  | producer p =>
    simp only [Ink.renamed, Generator.layer?, producerLayer?, h.transition, map_bind]
    refine bind_congr fun rough => congrArg Except.ok (funext fun x => funext fun y => ?_)
    rw [Layer.renamed, map_bind]
    refine bind_congr fun inside => ?_
    cases inside with
    | false => rfl
    | true =>
      simp only [if_true, p.biomeAt?_renamed, Functor.map_map]
      rfl
  | biome k =>
    have hb := h.biomes k
    simp only [Ink.renamed, Generator.layer?, biomeLayer?, h.world, h.heightTransition]
    generalize g.biomes[k]? = o at hb ⊢
    generalize g'.biomes[σ k]? = o' at hb ⊢
    cases hb with
    | none => rfl
    | some hb =>
      simp only [hb.selection, hb.selects?, map_bind]
      refine bind_congr fun height => bind_congr fun selection => congrArg Except.ok
        (funext fun x => funext fun y => ?_)
      rw [Layer.renamed, map_bind]
      refine bind_congr fun inside => ?_
      cases inside with
      | false => rfl
      | true =>
        rw [if_pos rfl, if_pos rfl, map_bind]
        refine bind_congr fun settles => ?_
        cases settles <;> rfl

variable {inks : List (Ink α)}

/-- Positions fit into a map wherever they have moved to. -/
theorem covers_iff (h : g.Renames σ τ g')
    (hfits : ∀ k < g.biomes.size, σ k < BiomeMap.positions ↔ k < BiomeMap.positions) {ink : Ink α}
    (hink : g.Names ink) :
    g'.Covers area outline (ink.renamed σ) ↔ g.Covers area outline ink := by
  simp only [Covers, h.layer?, map_eq_ok, exists_exists_and_eq_and, Layer.renamed,
    Option.forall_mem_map]
  refine exists_congr fun layer => and_congr_right fun hlayer => forall_congr' fun x =>
    forall_congr' fun y => forall_congr' fun _ => exists_congr fun o => and_congr_right fun ho => ?_
  refine forall₂_congr fun k hk => hfits k ?_
  obtain rfl : o = some k := hk
  exact hink.layer_lt hlayer ho

theorem fills_iff (h : g.Renames σ τ g')
    (hfits : ∀ k < g.biomes.size, σ k < BiomeMap.positions ↔ k < BiomeMap.positions)
    (hinks : ∀ ink ∈ inks, g.Names ink) :
    g'.Fills area outline (inks.map (Ink.renamed σ)) ↔ g.Fills area outline inks := by
  unfold Fills
  rw [h.world, List.forall_mem_map]
  exact and_congr_right fun _ => forall₂_congr fun ink hink => h.covers_iff hfits (hinks ink hink)

omit [NoiseSource α] [SquareRoot α] [Scalar α] in
theorem names_inks {p : Producer α} (hp : p.Below g.biomes.size) (biomes : List Nat) :
    ∀ ink ∈ Generator.inks p biomes, g.Names ink := by
  rw [Generator.inks, List.forall_mem_cons, List.forall_mem_map]
  exact ⟨hp, fun _ _ => trivial⟩

theorem climateFills_iff (h : g.Renames σ τ g')
    (hfits : ∀ k < g.biomes.size, σ k < BiomeMap.positions ↔ k < BiomeMap.positions)
    (hclimates : ∀ c ∈ g.climates.toList, c.producer.Below g.biomes.size) (e : Nat × Interval) :
    g'.ClimateFills (z.renamed σ τ) (Prod.map τ id e) ↔ g.ClimateFills z e := by
  have hc := h.climates e.1
  unfold ClimateFills
  rw [Prod.map_fst, h.world]
  cases hold : g.climates[e.1]? with
  | none =>
    rw [hold] at hc
    generalize g'.climates[τ e.1]? = o at hc ⊢
    cases hc
    simp
  | some c =>
    have hbelow := hclimates c (Array.mem_toList_iff.mpr (Array.mem_of_getElem? hold))
    rw [hold] at hc
    generalize g'.climates[τ e.1]? = o at hc ⊢
    cases hc with
    | some hc =>
      simp only [Option.some.injEq, exists_eq_left', hc.depth, hc.shape, hc.producer, hc.biomes,
        inks_renamed]
      refine exists_congr fun area => and_congr_right fun _ => forall_congr' fun _ => ?_
      exact h.fills_iff hfits (names_inks hbelow c.biomes)

theorem zoneFills_iff (h : g.Renames σ τ g')
    (hfits : ∀ k < g.biomes.size, σ k < BiomeMap.positions ↔ k < BiomeMap.positions)
    (hclimates : ∀ c ∈ g.climates.toList, c.producer.Below g.biomes.size)
    (hz : z.producer.Below g.biomes.size) :
    g'.ZoneFills (z.renamed σ τ) ↔ g.ZoneFills z := by
  have hzone : g'.Fills (Context.ofZone g'.world (z.renamed σ τ).rows) none
      (Generator.inks (z.renamed σ τ).producer (z.renamed σ τ).biomes) ↔
        g.Fills (Context.ofZone g.world z.rows) none (Generator.inks z.producer z.biomes) := by
    rw [h.world]
    simp only [Zone.renamed, inks_renamed]
    exact h.fills_iff hfits (names_inks hz z.biomes)
  have hall : (∀ e ∈ (z.renamed σ τ).climates, g'.ClimateFills (z.renamed σ τ) e) ↔
      ∀ e ∈ z.climates, g.ClimateFills z e := by
    have hmoved : (z.renamed σ τ).climates = z.climates.map (Prod.map τ id) := rfl
    rw [hmoved, List.forall_mem_map]
    exact forall₂_congr fun e _ => h.climateFills_iff hfits hclimates e
  exact and_congr hzone hall

/-- Either both maps are laid out or neither is. -/
theorem placeBiomes_returns_iff (h : g.Renames σ τ g')
    (hzones : g'.zones = g.zones.map (Zone.renamed σ τ))
    (hfits : ∀ k < g.biomes.size, σ k < BiomeMap.positions ↔ k < BiomeMap.positions)
    (hbelow : (∀ z ∈ g.zones, z.producer.Below g.biomes.size) ∧
      ∀ c ∈ g.climates.toList, c.producer.Below g.biomes.size) :
    (∃ map, g'.placeBiomes.outcome = .ok map) ↔ ∃ map, g.placeBiomes.outcome = .ok map := by
  rw [exists_placeBiomes_iff_fills, exists_placeBiomes_iff_fills, h.world, hzones,
    List.forall_mem_map]
  refine and_congr_right fun _ => forall₂_congr fun z hz => ?_
  exact h.zoneFills_iff hfits hbelow.2 (hbelow.1 z hz)

/-- Maps that follow the rules hold the same biomes under their new positions. -/
theorem cells (h : g.Renames σ τ g') (hzones : g'.zones = g.zones.map (Zone.renamed σ τ))
    {map map' : Grid} (hmap : g.FollowsRule map) (hmap' : g'.FollowsRule map') {x y : Int}
    (hx : 0 ≤ x) (hxw : x < g.world.width) (hy : 0 ≤ y) (hyh : y < g.world.height) :
    ∃ k : Nat, map.get? x y = .ok (.int k) ∧ map'.get? x y = .ok (.int (σ k : Nat)) := by
  obtain ⟨k, hk, hcell⟩ := hmap x y hx hxw hy hyh
  rw [← h.world] at hxw hyh
  obtain ⟨k', hk', hcell'⟩ := hmap' x y hx hxw hy hyh
  rw [h.biomeAt? hzones, hk] at hk'
  obtain rfl : σ k = k' := Except.ok.inj hk'
  exact ⟨k, hcell, hcell'⟩

end Fills

end Renames
end Generator
end TileWorld
