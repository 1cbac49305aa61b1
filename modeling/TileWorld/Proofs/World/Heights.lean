import TileWorld.Proofs.Number.Division
import TileWorld.Proofs.World.Layers

/-! How willingly biomes settle. A biome that reaches over more heights at a greater ratio settles on
every cell that it settled on before. -/
namespace TileWorld
open Double

/-- What is left of one at a distance, as it fades to nothing. -/
def faded (distance fade : Float) : Float :=
  if Scalar.lt 0.0 (1.0 - distance / fade) then 1.0 - distance / fade else 0.0

section Fading
variable {fade d d' : Float}

theorem outside_eq_faded (hfade : Scalar.lt 0.0 fade = true) (d : Float) :
    heightBias?.outside fade d = .ok (faded d fade) := by
  unfold heightBias?.outside Scalar.divide? faded
  rw [same_zero_of_pos hfade]
  rfl

theorem notNegative_div (hfade : Scalar.lt 0.0 fade = true) (hd : Scalar.IsWeight d) :
    NotNegative (value (d / fade)) :=
  div_float_notNegative (isWeight_notNegative hd) (isWeight_notNegative (scalar_le_of_lt hfade))
    (same_zero_of_pos hfade)

/-- What is left while something is left. -/
theorem faded_of_pos (hfade : Scalar.lt 0.0 fade = true) (hd : Scalar.IsWeight d)
    (hpos : Scalar.lt 0.0 (1.0 - d / fade) = true) :
    faded d fade = 1.0 - d / fade ∧ (value (d / fade)).isFinite = true ∧
      (value d).isFinite = true := by
  have hfinite := isFinite_of_one_sub_pos (notNegative_div hfade hd) hpos
  exact ⟨if_pos hpos, hfinite, isFinite_of_div hfinite⟩

/-- Fading leaves a share. -/
theorem isShare_faded (hfade : Scalar.lt 0.0 fade = true) (hd : Scalar.IsWeight d) :
    Scalar.IsShare (faded d fade) := by
  by_cases hpos : Scalar.lt 0.0 (1.0 - d / fade) = true
  · obtain ⟨heq, hfinite, -⟩ := faded_of_pos hfade hd hpos
    have hexact := exact_nonneg (notNegative_div hfade hd)
    have hone := nearestPlace_mono (show 1 - exact (value (d / fade)) ≤ exact (value 1.0) by
      rw [exact_one]; linarith)
    rw [heq]
    refine ⟨scalar_le_of_lt hpos, scalar_le_iff.mpr ⟨_, _, place?_sub rfl hfinite,
      place?_value rfl, ?_⟩⟩
    have htop := place?_value (x := 1.0) rfl
    have hlt := rank_lt_infinityRank (m := 2 ^ 52) (e := -52) (by norm_num) (by norm_num)
    rw [place?_one, Option.some.injEq] at htop
    rw [exact_one] at hone htop ⊢
    unfold clip
    omega
  · have hzero : faded d fade = 0.0 := if_neg hpos
    rw [hzero]
    exact ⟨by decide, by decide⟩

/-- What lies closer does not fade more. -/
theorem faded_le (hfade : Scalar.lt 0.0 fade = true) (hd' : Scalar.IsWeight d')
    (hle : Scalar.le d' d = true) : Scalar.le (faded d fade) (faded d' fade) = true := by
  have hd : Scalar.IsWeight d := scalar_le_trans hd' hle
  by_cases hpos : Scalar.lt 0.0 (1.0 - d / fade) = true
  · obtain ⟨heq, hquotient, hfinite⟩ := faded_of_pos hfade hd hpos
    have hfinite' := isFinite_of_le (isWeight_notNegative hd') hle hfinite
    have hdiv := scalar_le_div hfinite' hfinite hfade hle
    have hquotient' := isFinite_of_le (notNegative_div hfade hd') hdiv hquotient
    have hsub : Scalar.le (1.0 - d / fade) (1.0 - d' / fade) = true :=
      scalar_le_sub rfl rfl hquotient hquotient' (scalar_le_refl rfl) hdiv
    have heq' := (faded_of_pos hfade hd' (scalar_lt_of_lt_of_le hpos hsub)).1
    rw [heq, heq']
    exact hsub
  · have hzero : faded d fade = 0.0 := if_neg hpos
    rw [hzero]
    exact (isShare_faded hfade hd').1

end Fading

/-- A span of finite numbers in order that another one reaches around. -/
structure Span.Within (inner outer : Span Float) : Prop where
  finite : (value inner.start).isFinite = true ∧ (value inner.stop).isFinite = true
  finite' : (value outer.start).isFinite = true ∧ (value outer.stop).isFinite = true
  ordered : Scalar.le inner.start inner.stop = true
  start : Scalar.le outer.start inner.start = true
  stop : Scalar.le inner.stop outer.stop = true

/-- A finite ratio over finite heights, and another one that is no less over no less. -/
structure Grows (ratio : Float) (range : Span Float) (ratio' : Float) (range' : Span Float) :
    Prop where
  finite : (value ratio).isFinite = true
  finite' : (value ratio').isFinite = true
  ratio : Scalar.le ratio ratio' = true
  range : range.Within range'

section Bias
variable {height fade b b' : Float} {range range' : Span Float}

theorem heightBias?_eq (hfade : Scalar.lt 0.0 fade = true) : heightBias? height range fade =
    .ok (if Scalar.lt height range.start then faded (range.start - height) fade
      else if Scalar.lt range.stop height then faded (height - range.stop) fade else 1.0) := by
  unfold heightBias?
  rw [outside_eq_faded hfade, outside_eq_faded hfade]
  split_ifs
  · rfl
  · rfl
  · rfl

theorem isShare_heightBias? (hfade : Scalar.lt 0.0 fade = true)
    (hheight : (value height).isFinite = true) (hstart : (value range.start).isFinite = true)
    (hstop : (value range.stop).isFinite = true) (hb : heightBias? height range fade = .ok b) :
    Scalar.IsShare b := by
  rw [heightBias?_eq hfade, Except.ok.injEq] at hb
  split_ifs at hb with hbelow habove
  · exact hb ▸ isShare_faded hfade (isWeight_sub hstart hheight (scalar_le_of_lt hbelow))
  · exact hb ▸ isShare_faded hfade (isWeight_sub hheight hstop (scalar_le_of_lt habove))
  · exact hb ▸ ⟨by decide, by decide⟩

/-- Over more heights the bias is nowhere less. -/
theorem heightBias?_le (hfade : Scalar.lt 0.0 fade = true) (hheight : (value height).isFinite = true)
    (hrange : range.Within range') (hb : heightBias? height range fade = .ok b)
    (hb' : heightBias? height range' fade = .ok b') : Scalar.le b b' = true := by
  have hshare := isShare_heightBias? hfade hheight hrange.finite.1 hrange.finite.2 hb
  rw [heightBias?_eq hfade, Except.ok.injEq] at hb hb'
  -- what lies outside of the wider range lies outside of the other, on the same side
  have hlow (h : Scalar.lt height range'.start = true) : Scalar.lt height range.start = true :=
    scalar_lt_of_lt_of_le h hrange.start
  have hhigh (h : Scalar.lt range'.stop height = true) : Scalar.lt range.stop height = true :=
    scalar_lt_of_le_of_lt hrange.stop h
  split_ifs at hb' with hbelow' habove'
  · rw [if_pos (hlow hbelow')] at hb
    rw [← hb, ← hb']
    exact faded_le hfade (isWeight_sub hrange.finite'.1 hheight (scalar_le_of_lt hbelow'))
      (scalar_le_sub hrange.finite'.1 hrange.finite.1 hheight hheight hrange.start
        (scalar_le_refl hheight))
  · have habove := hhigh habove'
    have hbelow : ¬Scalar.lt height range.start = true := fun h =>
      scalar_lt_irrefl _ (scalar_lt_of_lt_of_le h
        (scalar_le_trans hrange.ordered (scalar_le_of_lt habove)))
    rw [if_neg hbelow, if_pos habove] at hb
    rw [← hb, ← hb']
    exact faded_le hfade (isWeight_sub hheight hrange.finite'.2 (scalar_le_of_lt habove'))
      (scalar_le_sub hheight hheight hrange.finite'.2 hrange.finite.2 (scalar_le_refl hheight)
        hrange.stop)
  · rw [← hb']
    exact hshare.2

end Bias

namespace Generator

/-- The height of a row is finite. -/
theorem isFinite_height {y worldHeight : Int} (hpos : 0 < worldHeight) {row rows height : Float}
    (hrow : Scalar.ofInt? y = .ok row) (hrows : Scalar.ofInt? worldHeight = .ok rows)
    (h : Scalar.divide? row rows = .ok height) : (value height).isFinite = true := by
  have hone : Rounds 1.0 1 := exact_one ▸ Rounds.refl rfl
  have hge := hone.mono (rounds_of_ofInt? hrows) (by exact_mod_cast hpos)
  have hzero := same_zero_of_ofInt? hpos hrows
  rw [Scalar.divide?, hzero] at h
  obtain rfl : row / rows = height := Except.ok.inj h
  exact isFinite_div (rounds_of_ofInt? hrow).finite (rounds_of_ofInt? hrows).finite
    (exact_one ▸ hge) hzero

/-- A biome that was selected is so at a greater ratio over more heights. -/
theorem selects?_grown {b b' : Biome Float} {fade worldHeight : Float}
    {selection : BakedSampler Float} {rows : Int} (hrows : 0 < rows)
    (hheight : Scalar.ofInt? rows = .ok worldHeight) (hfade : Scalar.lt 0.0 fade = true)
    (hratio : Scalar.IsWeight b.ratio)
    (hgrows : Grows b.ratio b.heightRange b'.ratio b'.heightRange) {x y : Int}
    (h : selects? b worldHeight fade selection x y = .ok true) :
    selects? b' worldHeight fade selection x y = .ok true := by
  obtain ⟨hfinite, hfinite', hle, hrange⟩ := hgrows
  obtain ⟨row, height, bias, selected, hrow, hquotient, hbias, hselected, hsettles⟩ :=
    selects?_eq_ok.mp h
  have hfiniteHeight := isFinite_height hrows hrow hheight hquotient
  obtain ⟨bias', hbias'⟩ : ∃ bias', heightBias? height b'.heightRange fade = .ok bias' :=
    ⟨_, heightBias?_eq hfade⟩
  have hshare := isShare_heightBias? hfade hfiniteHeight hrange.finite.1 hrange.finite.2 hbias
  have hshare' := isShare_heightBias? hfade hfiniteHeight hrange.finite'.1 hrange.finite'.2 hbias'
  have hmul : Scalar.le (b.ratio * bias) (b'.ratio * bias') = true :=
    scalar_le_mul hfinite hfinite' (isShare_exact hshare).1 (isShare_exact hshare').1
      (isWeight_notNegative hratio) (isWeight_notNegative hshare.1) hle
      (heightBias?_le hfade hfiniteHeight hrange hbias hbias')
  exact selects?_eq_ok.mpr ⟨row, height, bias', selected, hrow, hquotient, hbias', hselected,
    (scalar_le_trans hsettles.symm hmul).symm⟩

end Generator

end TileWorld
