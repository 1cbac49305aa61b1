import TileWorld.Proofs.Number.Quotient
import TileWorld.Proofs.Number.Whole
import TileWorld.Proofs.World.Bounds
import TileWorld.Proofs.World.Layers

/-! Inks on areas within a world, over doubles. When samplers can be evaluated, a producer covers all
of its area, and a biome covers it as soon as the height of the world is a double. -/
namespace TileWorld

/-- A window with cells, all of which belong to a world. -/
structure Window.Within (w : Window) (world : World) : Prop where
  nonempty : w.isEmpty = false
  columns : 0 ≤ w.columns.start ∧ w.columns.stop ≤ world.width
  rows : 0 ≤ w.rows.start ∧ w.rows.stop ≤ world.height

/-- A sampler that can be baked over every window within a world, and read at all of its cells. -/
def Sampler.Evaluates (s : Sampler Float) (world : World) : Prop :=
  ∀ area : Context, area.world = world → area.toWindow.Within world →
    ∃ baked, s.bake area area.toWindow = .ok baked ∧
      ∀ x y, area.contains x y = true → ∃ v, baked x y = .ok v

theorem Sampler.evaluates_const (v : Float) (world : World) : (const v).Evaluates world :=
  fun _ _ _ => ⟨fun _ _ => .ok v, by rw [bake]; rfl, fun _ _ _ => ⟨v, rfl⟩⟩

/-- Shapes with an outline tell every point in or out. -/
theorem Shape.exists_inside? {shape : Shape Float} (h : shape ≠ .unspecified) (x y : Float) :
    ∃ inside, shape.inside? x y = .ok inside := by
  cases shape with
  | unspecified => exact absurd rfl h
  | oval raise => exact ⟨_, rfl⟩
  | triangle top => exact ⟨_, rfl⟩
  | rectangle sheer => exact ⟨_, rfl⟩

/-- A transition of no size is never divided by: no depth lies within it. -/
theorem Stratum.transition_ne_zero {size transition depth : Float}
    (habove : Scalar.le (size + transition) depth = false) (hbelow : Scalar.le size depth = true) :
    Scalar.same transition 0.0 = false := by
  by_contra hsame
  rw [Double.scalar_le_add_zero (by simpa using hsame), hbelow] at habove
  exact Bool.noConfusion habove

theorem Stratum.exists_at? (size transition depth : Float) {roughness : Except Fault Float}
    (h : ∃ v, roughness = .ok v) : ∃ part, Stratum.at? size transition depth roughness = .ok part := by
  obtain ⟨v, rfl⟩ := h
  cases hcave : Scalar.le (size + transition) depth with
  | true => exact ⟨.cave, by simp [Stratum.at?, hcave]⟩
  | false =>
    cases hdeep : Scalar.le size depth with
    | false => exact ⟨.surface, by simp [Stratum.at?, hcave, hdeep]⟩
    | true =>
      have htransition := Stratum.transition_ne_zero hcave hdeep
      cases hrough : Scalar.lt (1.0 - (depth - size) / transition) v with
      | true =>
        exact ⟨.cave, by simp [Stratum.at?, hcave, hdeep, Scalar.divide?, htransition, hrough]⟩
      | false =>
        exact ⟨.surface, by simp [Stratum.at?, hcave, hdeep, Scalar.divide?, htransition, hrough]⟩

theorem exists_heightBias? (height : Float) (range : Span Float) {fade : Float}
    (h : Scalar.lt 0.0 fade = true) : ∃ bias, heightBias? height range fade = .ok bias := by
  have hfade := Double.same_zero_of_pos h
  have houtside (distance : Float) : ∃ bias, heightBias?.outside fade distance = .ok bias := by
    simp only [heightBias?.outside, Scalar.divide?, hfade]
    exact ⟨_, rfl⟩
  unfold heightBias?
  split_ifs
  · exact houtside _
  · exact houtside _
  · exact ⟨1.0, rfl⟩

namespace Generator
variable {g : Generator Float} {area : Context} {outline : Option (Shape Float)}

/-- Whether the height of the world is a double. -/
def HeightFits (g : Generator Float) : Prop :=
  ∃ height : Float, Scalar.ofInt? g.world.height = .ok height

theorem exists_within? (houtline : ∀ shape ∈ outline, shape ≠ .unspecified) {x y : Int}
    (hc : area.contains x y = true) : ∃ inside, within? area.toWindow outline x y = .ok inside := by
  cases outline with
  | none => exact ⟨true, rfl⟩
  | some shape =>
    obtain ⟨hx, hy⟩ := Bool.and_eq_true_iff.mp hc
    obtain ⟨u, hu⟩ := Interval.exists_local? hx
    obtain ⟨v, hv⟩ := Interval.exists_local? hy
    obtain ⟨inside, hinside⟩ := Shape.exists_inside? (houtline shape rfl) u v
    exact ⟨inside, by simp [within?, hu, hv, hinside]⟩

theorem exists_biomeAt? {p : Producer Float} {biomes : Nat} (hp : p.InBounds biomes)
    {w : Window} {rough : Int → Int → Except Fault Float} {x y : Int}
    (hc : w.contains x y = true) (hrough : ∃ v, rough x y = .ok v) :
    ∃ k, p.biomeAt? w rough x y = .ok k ∧ k < biomes := by
  obtain ⟨-, hy⟩ := Bool.and_eq_true_iff.mp hc
  obtain ⟨depth, hdepth⟩ := Interval.exists_local? hy
  obtain ⟨part, hpart⟩ := Stratum.exists_at? p.surfaceSize p.surfaceTransition depth hrough
  refine ⟨p.biome part, ?_, ?_⟩
  · simp [Producer.biomeAt?, hdepth, hpart]
  · cases part with
    | surface => exact hp.surface_lt
    | cave => exact hp.cave_lt

theorem covers_producer {p : Producer Float} {biomes : Nat} (hp : p.InBounds biomes)
    (hcount : biomes ≤ 0x10000) (houtline : ∀ shape ∈ outline, shape ≠ .unspecified)
    (htransition : g.transition.Evaluates g.world) (hworld : area.world = g.world)
    (hwithin : area.toWindow.Within g.world) : g.Covers area outline (.producer p) := by
  obtain ⟨rough, hbake, hrough⟩ := htransition area hworld hwithin
  simp only [Covers, layer?, producerLayer?, hbake, ok_bind, pure_eq_ok, Except.ok.injEq,
    exists_eq_left']
  intro x y hc
  obtain ⟨inside, hinside⟩ := exists_within? houtline hc
  cases inside with
  | false => exact ⟨none, by simp [hinside], by simp⟩
  | true =>
    obtain ⟨k, hk, hlt⟩ := exists_biomeAt? hp hc (hrough x y hc)
    refine ⟨some k, by simp [hinside, hk], fun j hj => ?_⟩
    obtain rfl : k = j := by simpa using hj
    exact hlt.trans_le hcount

/-- Inside the world no biome divides by zero when it selects its cells. -/
theorem exists_selects? (hheight : 0 < g.world.height) {worldHeight : Float}
    (hfits : Scalar.ofInt? g.world.height = .ok worldHeight)
    (hfade : Scalar.lt 0.0 g.heightTransition = true) (b : Biome Float)
    {selection : BakedSampler Float} {x y : Int} (hy : 0 ≤ y) (hy' : y < g.world.height)
    (hselection : ∃ v, selection x y = .ok v) :
    ∃ settles, selects? b worldHeight g.heightTransition selection x y = .ok settles := by
  obtain ⟨v, hv⟩ := hselection
  obtain ⟨row, hrow⟩ := Double.exists_ofInt?_of_le hy hy'.le hfits
  have hzero := Double.same_zero_of_ofInt? hheight hfits
  obtain ⟨bias, hbias⟩ := exists_heightBias? (row / worldHeight) b.heightRange hfade
  have hheight : Scalar.divide? row worldHeight = .ok (row / worldHeight) := by
    rw [Scalar.divide?, if_neg (by simp [hzero])]
  exact ⟨_, selects?_eq_ok.mpr ⟨row, _, bias, v, hrow, hheight, hbias, hv, rfl⟩⟩

theorem covers_biome {k : Nat} {b : Biome Float} (hb : g.biomes[k]? = some b) (hk : k < 0x10000)
    (houtline : ∀ shape ∈ outline, shape ≠ .unspecified) (hheight : 0 < g.world.height)
    (hfits : g.HeightFits) (hfade : Scalar.lt 0.0 g.heightTransition = true)
    (hselection : b.selection.Evaluates g.world) (hworld : area.world = g.world)
    (hwithin : area.toWindow.Within g.world) : g.Covers area outline (.biome k) := by
  obtain ⟨worldHeight, hfits⟩ := hfits
  obtain ⟨selection, hbake, hselection⟩ := hselection area hworld hwithin
  simp only [Covers, layer?, biomeLayer?, hb, hfits, hbake, ok_bind, pure_eq_ok, Except.ok.injEq,
    exists_eq_left']
  intro x y hc
  obtain ⟨inside, hinside⟩ := exists_within? houtline hc
  have hy := ((Window.contains_iff _ x y).mp hc).2
  have hrows := hwithin.rows
  obtain ⟨settles, hsettles⟩ := exists_selects? hheight hfits hfade b (by omega) (by omega)
    (hselection x y hc)
  cases inside with
  | false => exact ⟨none, by simp [hinside], by simp⟩
  | true =>
    cases settles with
    | false => exact ⟨none, by simp [hinside, hsettles], by simp⟩
    | true =>
      refine ⟨some k, by simp [hinside, hsettles], fun j hj => ?_⟩
      obtain rfl : k = j := by simpa using hj
      exact hk

end Generator
end TileWorld
