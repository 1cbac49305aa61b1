import TileWorld.Proofs.Baking.Tree
import TileWorld.Proofs.Number.Exceptions

/-! What the constructors of samplers and brushes keep out. Their guards refuse what compares as
wrong, and a non-number compares as nothing: what is returned is well formed where the arguments
were numbers, finite ones where they are weights, and nowhere else. -/
namespace TileWorld
open Double (value)

namespace Sampler

theorem exists_layered? {layers : List (Float × Sampler Float)}
    (h : Scalar.lt 0.0 (Scalar.sum (layers.map Prod.fst)) = true) :
    ∃ s, layered? layers = .ok s := by
  have hempty : layers ≠ [] := mt List.map_eq_nil_iff.mpr (Double.ne_nil_of_sum_pos h)
  exact ⟨_, layered?_eq_ok.mpr
    ⟨⟨List.isEmpty_eq_false_iff.mpr hempty, Double.not_le_of_lt h⟩, rfl⟩⟩

theorem layered?_shares_iff {layers : List (Float × Sampler Float)} {s : Sampler Float}
    (h : layered? layers = .ok s) : ∃ shares : List (Float × Sampler Float), s = .layered shares ∧
      ((Scalar.lt 0.0 (Scalar.sum (layers.map Prod.fst)) = true ∧
          ∀ l ∈ shares, l.1.isNaN = false) ↔ ∀ l ∈ layers, l.1.isFinite = true) := by
  obtain ⟨⟨-, hguard⟩, rfl⟩ := layered?_eq_ok.mp h
  have hiff := Double.shared_iff_isFinite hguard
  rw [List.forall_mem_map, List.forall_mem_map] at hiff
  exact ⟨_, rfl, by rwa [List.forall_mem_map]⟩

theorem exists_zoom? {range : Span Float} (inner : Sampler Float)
    (h : Scalar.lt range.start range.stop = true) : ∃ s, zoom? range inner = .ok s :=
  ⟨_, zoom?_eq_ok.mpr ⟨Double.not_le_of_lt h, rfl⟩⟩

theorem zoom?_increases_iff {range : Span Float} {inner s : Sampler Float}
    (h : zoom? range inner = .ok s) : s = .zoom range inner ∧
      (Scalar.lt range.start range.stop = true ↔
        range.start.isNaN = false ∧ range.stop.isNaN = false) := by
  obtain ⟨hguard, rfl⟩ := zoom?_eq_ok.mp h
  exact ⟨rfl, Double.lt_iff_isNaN_of_not_le hguard⟩

theorem exists_noise? {scaleX scaleY : Float} (offset : Float) (kind : NoiseKind)
    (hx : Scalar.lt 0.0 scaleX = true) (hy : Scalar.lt 0.0 scaleY = true) :
    ∃ s, noise? scaleX scaleY offset kind = .ok s :=
  ⟨_, noise?_eq_ok.mpr ⟨⟨Double.not_le_of_lt hx, Double.not_le_of_lt hy⟩, rfl⟩⟩

theorem noise?_scales_iff {scaleX scaleY offset : Float} {kind : NoiseKind} {s : Sampler Float}
    (h : noise? scaleX scaleY offset kind = .ok s) : s = .noise scaleX scaleY offset kind ∧
      (Scalar.lt 0.0 scaleX = true ∧ Scalar.lt 0.0 scaleY = true ↔
        scaleX.isNaN = false ∧ scaleY.isNaN = false) := by
  obtain ⟨hguard, rfl⟩ := noise?_eq_ok.mp h
  have hzero : (0.0 : Float).isNaN = false := rfl
  rw [Double.lt_iff_isNaN_of_not_le hguard.1, Double.lt_iff_isNaN_of_not_le hguard.2]
  exact ⟨rfl, ⟨fun h => ⟨h.1.2, h.2.2⟩, fun h => ⟨⟨hzero, h.1⟩, hzero, h.2⟩⟩⟩

end Sampler

namespace Brush

/-- Thresholds in order, from zero to as far past one as rounding can bring. -/
structure Steps (thresholds : List Float) : Prop where
  ordered : thresholds.Pairwise (Scalar.le · · = true)
  within : ∀ t ∈ thresholds, Scalar.le 0.0 t = true ∧ Scalar.le t (1.0 + 1e-6) = true

theorem Steps.isNaN {thresholds : List Float} (h : Steps thresholds) :
    ∀ t ∈ thresholds, t.isNaN = false := fun t ht => (Double.isNaN_of_le (h.within t ht).1).2

theorem increasing_cons {low t : Float} {rest : List Float} :
    increasing low (t :: rest) = true ↔
      Scalar.lt t low = false ∧ Scalar.lt (1.0 + 1e-6) t = false ∧ increasing t rest = true := by
  simp [increasing, and_assoc]

/-- Of lists of numbers the guard lets through those that go up from its lower bound. -/
theorem increasing_iff {low : Float} {thresholds : List Float} (hlow : low.isNaN = false)
    (hnumbers : ∀ t ∈ thresholds, t.isNaN = false) : increasing low thresholds = true ↔
      (low :: thresholds).Pairwise (Scalar.le · · = true) ∧
        ∀ t ∈ thresholds, Scalar.le t (1.0 + 1e-6) = true := by
  induction thresholds generalizing low with
  | nil => simp [increasing]
  | cons t rest ih =>
    rw [List.forall_mem_cons] at hnumbers
    rw [increasing_cons, Double.not_lt_iff_le hlow hnumbers.1,
      Double.not_lt_iff_le hnumbers.1 rfl, ih hnumbers.1 hnumbers.2]
    constructor
    · rintro ⟨hle, hwithin, hordered, htop⟩
      refine ⟨List.pairwise_cons.mpr ⟨List.forall_mem_cons.mpr ⟨hle, fun u hu => ?_⟩, hordered⟩,
        List.forall_mem_cons.mpr ⟨hwithin, htop⟩⟩
      exact Double.scalar_le_trans hle (List.rel_of_pairwise_cons hordered hu)
    · rintro ⟨hordered, htop⟩
      rw [List.forall_mem_cons] at htop
      exact ⟨List.rel_of_pairwise_cons hordered (.head _), htop.1, hordered.tail, htop.2⟩

theorem Steps.increasing {thresholds : List Float} (h : Steps thresholds) :
    increasing 0.0 thresholds = true :=
  (increasing_iff rfl h.isNaN).mpr
    ⟨List.pairwise_cons.mpr ⟨fun t ht => (h.within t ht).1, h.ordered⟩,
      fun t ht => (h.within t ht).2⟩

theorem steps_iff_isNaN {thresholds : List Float} (h : increasing 0.0 thresholds = true) :
    Steps thresholds ↔ ∀ t ∈ thresholds, t.isNaN = false := by
  refine ⟨Steps.isNaN, fun hnumbers => ?_⟩
  obtain ⟨hordered, htop⟩ := (increasing_iff rfl hnumbers).mp h
  rw [List.pairwise_cons] at hordered
  exact ⟨hordered.2, fun t ht => ⟨hordered.1 t ht, htop t ht⟩⟩

section Cumulative
variable {total reached : Float} {children : List (Float × Brush Float)}

/-- A finite running total has finite parts only. -/
theorem isFinite_of_cumulative
    (h : ∀ t ∈ (cumulative total reached children).map Prod.fst, (value t).isFinite = true) :
    ∀ c ∈ children, (value c.1).isFinite = true := by
  induction children generalizing reached with
  | nil => simp
  | cons c rest ih =>
    rw [cumulative, List.map_cons, List.forall_mem_cons] at h
    exact List.forall_mem_cons.mpr
      ⟨Double.isFinite_of_div (Double.isFinite_of_add h.1).2, ih h.2⟩

/-- Finite weights have running totals that the guard can compare: none is a non-number before the
guard has found the one before it to be out of bounds. -/
theorem isNaN_cumulative (htotal : Scalar.lt 0.0 total = true)
    (hreached : (value reached).isFinite = true)
    (hfinite : ∀ c ∈ children, (value c.1).isFinite = true)
    (h : increasing reached ((cumulative total reached children).map Prod.fst) = true) :
    ∀ t ∈ (cumulative total reached children).map Prod.fst, t.isNaN = false := by
  induction children generalizing reached with
  | nil => simp [cumulative]
  | cons c rest ih =>
    rw [List.forall_mem_cons] at hfinite
    rw [cumulative, List.map_cons] at h ⊢
    obtain ⟨hstep, hwithin, hrest⟩ := increasing_cons.mp h
    have hlow := Double.isNaN_of_isFinite hreached
    have hnext := Double.isNaN_add hlow (Double.isNaN_div hfinite.1 htotal) (.inl hreached)
    have hnext' := Double.isFinite_of_between hreached rfl
      ((Double.not_lt_iff_le hlow hnext).mp hstep) ((Double.not_lt_iff_le hnext rfl).mp hwithin)
    exact List.forall_mem_cons.mpr ⟨hnext, ih hnext' hfinite.2 hrest⟩

end Cumulative

variable {sampler : Sampler Float} {children : List (Float × Brush Float)} {b : Brush Float}

theorem exists_selector? (hempty : children ≠ []) (h : Steps (children.map Prod.fst)) :
    ∃ b, selector? sampler children = .ok b :=
  ⟨_, selector?_eq_ok.mpr ⟨⟨List.isEmpty_eq_false_iff.mpr hempty, h.increasing⟩, rfl⟩⟩

theorem selector?_steps_iff (h : selector? sampler children = .ok b) :
    b = .selector sampler children ∧
      (Steps (children.map Prod.fst) ↔ ∀ c ∈ children, c.1.isNaN = false) := by
  obtain ⟨⟨-, hguard⟩, rfl⟩ := selector?_eq_ok.mp h
  have hiff := steps_iff_isNaN hguard
  rw [List.forall_mem_map] at hiff
  exact ⟨rfl, hiff⟩

theorem exists_weighted? (htotal : Scalar.lt 0.0 (Scalar.sum (children.map Prod.fst)) = true)
    (h : Steps ((cumulative (Scalar.sum (children.map Prod.fst)) 0.0 children).map Prod.fst)) :
    ∃ b, weighted? sampler children = .ok b := by
  have hempty : children ≠ [] := mt List.map_eq_nil_iff.mpr (Double.ne_nil_of_sum_pos htotal)
  obtain ⟨c, rest, rfl⟩ := List.exists_cons_of_ne_nil hempty
  obtain ⟨b, hb⟩ := exists_selector? (List.cons_ne_nil _ _) h
  exact ⟨b, weighted?_eq_ok.mpr ⟨⟨rfl, Double.not_le_of_lt htotal⟩, hb⟩⟩

theorem weighted?_steps_iff (h : weighted? sampler children = .ok b) :
    ∃ shares : List (Float × Brush Float), b = .selector sampler shares ∧
      (Steps (shares.map Prod.fst) ↔ ∀ c ∈ children, c.1.isFinite = true) := by
  obtain ⟨⟨-, htotal⟩, h⟩ := weighted?_eq_ok.mp h
  obtain ⟨⟨-, hguard⟩, rfl⟩ := selector?_eq_ok.mp h
  refine ⟨_, rfl, fun hsteps => ?_, fun hfinite => ?_⟩
  · exact isFinite_of_cumulative fun t ht =>
      Double.isFinite_of_between rfl rfl (hsteps.within t ht).1 (hsteps.within t ht).2
  · have hpos := (Double.lt_iff_isNaN_of_not_le htotal).mpr
      ⟨rfl, Double.isNaN_sum (List.forall_mem_map.mpr hfinite)⟩
    exact (steps_iff_isNaN hguard).mpr (isNaN_cumulative hpos rfl hfinite hguard)

end Brush

/-- What the guards of weighted sums, zooms, noise and selections are good for. No constructor
refuses what would be well formed; and whatever doubles it is given, what it returns is well formed
if and only if no end of a range, scale or threshold is a non-number and all weights are finite. -/
theorem guards_suffice_iff (layers : List (Float × Sampler Float)) (range : Span Float)
    (inner : Sampler Float) (scaleX scaleY offset : Float) (kind : NoiseKind)
    (sampler : Sampler Float) (children : List (Float × Brush Float)) :
    ((Scalar.lt 0.0 (Scalar.sum (layers.map Prod.fst)) = true →
        ∃ s, Sampler.layered? layers = .ok s) ∧
      ∀ s, Sampler.layered? layers = .ok s →
        ∃ shares : List (Float × Sampler Float), s = .layered shares ∧
          ((Scalar.lt 0.0 (Scalar.sum (layers.map Prod.fst)) = true ∧
              ∀ l ∈ shares, l.1.isNaN = false) ↔ ∀ l ∈ layers, l.1.isFinite = true)) ∧
    ((Scalar.lt range.start range.stop = true → ∃ s, Sampler.zoom? range inner = .ok s) ∧
      ∀ s, Sampler.zoom? range inner = .ok s → s = .zoom range inner ∧
        (Scalar.lt range.start range.stop = true ↔
          range.start.isNaN = false ∧ range.stop.isNaN = false)) ∧
    ((Scalar.lt 0.0 scaleX = true → Scalar.lt 0.0 scaleY = true →
        ∃ s, Sampler.noise? scaleX scaleY offset kind = .ok s) ∧
      ∀ s, Sampler.noise? scaleX scaleY offset kind = .ok s →
        s = .noise scaleX scaleY offset kind ∧
          (Scalar.lt 0.0 scaleX = true ∧ Scalar.lt 0.0 scaleY = true ↔
            scaleX.isNaN = false ∧ scaleY.isNaN = false)) ∧
    ((children ≠ [] → Brush.Steps (children.map Prod.fst) →
        ∃ b, Brush.selector? sampler children = .ok b) ∧
      ∀ b, Brush.selector? sampler children = .ok b → b = .selector sampler children ∧
        (Brush.Steps (children.map Prod.fst) ↔ ∀ c ∈ children, c.1.isNaN = false)) ∧
    (Scalar.lt 0.0 (Scalar.sum (children.map Prod.fst)) = true →
      Brush.Steps ((Brush.cumulative (Scalar.sum (children.map Prod.fst)) 0.0 children).map
        Prod.fst) → ∃ b, Brush.weighted? sampler children = .ok b) ∧
    ∀ b, Brush.weighted? sampler children = .ok b →
      ∃ shares : List (Float × Brush Float), b = .selector sampler shares ∧
        (Brush.Steps (shares.map Prod.fst) ↔ ∀ c ∈ children, c.1.isFinite = true) := by
  refine ⟨⟨?_, fun _ => ?_⟩, ⟨?_, fun _ => ?_⟩, ⟨?_, fun _ => ?_⟩, ⟨?_, fun _ => ?_⟩, ?_,
    fun _ => ?_⟩
  · exact Sampler.exists_layered?
  · exact Sampler.layered?_shares_iff
  · exact Sampler.exists_zoom? inner
  · exact Sampler.zoom?_increases_iff
  · exact Sampler.exists_noise? offset kind
  · exact Sampler.noise?_scales_iff
  · exact Brush.exists_selector?
  · exact Brush.selector?_steps_iff
  · exact Brush.exists_weighted?
  · exact Brush.weighted?_steps_iff

/-- A non-number between two thresholds that go down. -/
def gapped : List (Float × Brush Float) :=
  [(0.5, .fill (.int 1)), (0.0 / 0.0, .fill (.int 2)), (0.25, .fill (.int 3))]

/-- What the guards let through: an infinite weight, and a non-number as the end of a range, as a
scale, as a threshold and as a weight. -/
theorem guards_miss_sample :
    (∃ shares : List (Float × Sampler Float),
      Sampler.layered? [(1.0 / 0.0, .across), (1.0, .down)] = .ok (.layered shares) ∧
        ¬∀ l ∈ shares, l.1.isNaN = false) ∧
    ((∃ s : Sampler Float, Sampler.zoom? ⟨0.0, 0.0 / 0.0⟩ .across = .ok s) ∧
      ¬Scalar.lt (0.0 : Float) (0.0 / 0.0) = true) ∧
    ((∃ s : Sampler Float, Sampler.noise? 8.0 (0.0 / 0.0) 0.0 .simplex = .ok s) ∧
      ¬Scalar.lt (0.0 : Float) (0.0 / 0.0) = true) ∧
    ((∃ b, Brush.selector? (.const 0.0) gapped = .ok b) ∧ ¬Brush.Steps (gapped.map Prod.fst)) ∧
    ∃ shares : List (Float × Brush Float),
      Brush.weighted? (.const 0.0) gapped = .ok (.selector (.const 0.0) shares) ∧
        ¬Brush.Steps (shares.map Prod.fst) := by
  obtain ⟨⟨-, hlayered⟩, ⟨-, hzoom⟩, ⟨-, hnoise⟩, ⟨-, hselector⟩, -, hweighted⟩ :=
    guards_suffice_iff [(1.0 / 0.0, .across), (1.0, .down)] ⟨0.0, 0.0 / 0.0⟩ .across
      8.0 (0.0 / 0.0) 0.0 .simplex (.const 0.0) gapped
  have hnan : ((0.0 : Float) / 0.0).isNaN ≠ false := by decide
  have hmissed : (0.0 / 0.0, Brush.fill (.int 2)) ∈ gapped := .tail _ (.head _)
  refine ⟨?_, ?_, ?_, ?_, ?_⟩
  · have hmade : ∃ s, Sampler.layered? [((1.0 : Float) / 0.0, .across), (1.0, .down)] = .ok s :=
      ⟨_, Sampler.layered?_eq_ok.mpr ⟨⟨rfl, by decide⟩, rfl⟩⟩
    obtain ⟨s, hs⟩ := hmade
    obtain ⟨shares, rfl, hiff⟩ := hlayered s hs
    refine ⟨shares, hs, fun hshares => ?_⟩
    exact absurd (hiff.mp ⟨by decide, hshares⟩ _ (.head _)) (by decide)
  · have hmade : ∃ s, Sampler.zoom? ⟨(0.0 : Float), 0.0 / 0.0⟩ .across = .ok s :=
      ⟨_, Sampler.zoom?_eq_ok.mpr ⟨by decide, rfl⟩⟩
    obtain ⟨s, hs⟩ := hmade
    exact ⟨⟨s, hs⟩, fun hlt => hnan ((hzoom s hs).2.mp hlt).2⟩
  · have hmade : ∃ s, Sampler.noise? (8.0 : Float) (0.0 / 0.0) 0.0 .simplex = .ok s :=
      ⟨_, Sampler.noise?_eq_ok.mpr ⟨by decide, rfl⟩⟩
    obtain ⟨s, hs⟩ := hmade
    exact ⟨⟨s, hs⟩, fun hlt => hnan ((hnoise s hs).2.mp ⟨by decide, hlt⟩).2⟩
  · have hmade : ∃ b, Brush.selector? (.const 0.0) gapped = .ok b :=
      ⟨_, Brush.selector?_eq_ok.mpr ⟨⟨rfl, by decide⟩, rfl⟩⟩
    obtain ⟨b, hb⟩ := hmade
    refine ⟨⟨b, hb⟩, fun hsteps => ?_⟩
    have hnumber := (hselector b hb).2.mp hsteps _ hmissed
    exact hnan hnumber
  · have hmade : ∃ b, Brush.weighted? (.const 0.0) gapped = .ok b :=
      ⟨_, Brush.weighted?_eq_ok.mpr
        ⟨⟨rfl, by decide +kernel⟩, Brush.selector?_eq_ok.mpr ⟨⟨rfl, by decide +kernel⟩, rfl⟩⟩⟩
    obtain ⟨b, hb⟩ := hmade
    obtain ⟨shares, rfl, hiff⟩ := hweighted b hb
    exact ⟨shares, hb, fun hsteps => absurd (hiff.mp hsteps _ hmissed) (by decide)⟩

end TileWorld
