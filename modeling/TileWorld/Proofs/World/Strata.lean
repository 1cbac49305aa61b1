import TileWorld.Proofs.Number.Shares
import TileWorld.Proofs.Region.Toward
import TileWorld.Proofs.World.Inks

/-! The border between the surface and the caves of an area. Above the transition and below it the
roughness has no say; within it a cell that lies deeper and is no smoother than a cave is cave too. -/
namespace TileWorld

/-- The part of an area that a cell belongs to. -/
def Producer.stratumAt? (p : Producer Float) (area : Window) (rough : ℤ → ℤ → Except Fault Float)
    (x y : ℤ) : Except Fault Stratum := do
  let depth ← area.rows.local? y
  Stratum.at? p.surfaceSize p.surfaceTransition depth (rough x y)

theorem Producer.biomeAt?_eq_map (p : Producer Float) (area : Window)
    (rough : ℤ → ℤ → Except Fault Float) (x y : ℤ) :
    p.biomeAt? area rough x y = p.biome <$> p.stratumAt? area rough x y := by
  unfold biomeAt? stratumAt?
  rw [map_bind]

namespace Stratum
open Double (Rounds Weighs exact value)
variable {size transition depth depth' n n' : Float} {roughness : Except Fault Float}

theorem at?_below (h : Scalar.le (size + transition) depth = true) :
    at? size transition depth roughness = .ok .cave := by
  rw [at?, if_pos h]
  rfl

/-- The end of the transition is rounded, but never to before its start. -/
theorem at?_above (hsize : Scalar.IsShare size) (htransition : Scalar.IsShare transition)
    (h : Scalar.lt depth size = true) : at? size transition depth roughness = .ok .surface := by
  have hnot := Double.not_le_of_lt h
  have hend : Scalar.le (size + transition) depth = false := by
    rw [Bool.eq_false_iff]
    intro hle
    have hweighs : Weighs transition := ⟨htransition.1, (Double.isShare_exact htransition).1⟩
    obtain ⟨-, hsum, -⟩ := Double.isWeight_add hsize.1 hweighs
    rw [Double.scalar_le_trans hsum hle] at hnot
    exact Bool.noConfusion hnot
  simp only [at?, hend, hnot]
  rfl

/-- Within the transition the division is sound and the roughness decides. -/
theorem at?_within (habove : Scalar.le (size + transition) depth = false)
    (hbelow : Scalar.le size depth = true) (roughness : Except Fault Float) :
    at? size transition depth roughness = (fun n =>
      if Scalar.lt (1.0 - (depth - size) / transition) n then cave else surface) <$> roughness := by
  have hzero := ne_true_of_eq_false (transition_ne_zero habove hbelow)
  rw [at?, if_neg (ne_true_of_eq_false habove), if_pos hbelow, Scalar.divide?, if_neg hzero, ok_bind]
  cases roughness with
  | error e => rfl
  | ok n =>
    rw [ok_bind]
    split_ifs with hrough
    · exact congrArg Except.ok (if_pos hrough).symm
    · exact congrArg Except.ok (if_neg hrough).symm

/-- A depth within a transition of some size, of which a share lies above it. -/
structure Within (size transition depth : Float) : Prop where
  finite : (value depth).isFinite = true
  positive : Scalar.lt 0.0 transition = true
  way : (value (depth - size)).isFinite = true
  share : Scalar.IsShare ((depth - size) / transition)

/-- The end of a transition is rounded. No double lies between it and the exact end, so that depths
before the one are not past the other. -/
theorem within (hsize : Scalar.IsShare size) (htransition : Scalar.IsShare transition)
    (habove : Scalar.le (size + transition) depth = false) (hbelow : Scalar.le size depth = true) :
    Within size transition depth := by
  obtain ⟨hfinite, hsize₀, hsize₁⟩ := Double.isShare_exact hsize
  obtain ⟨hfinite', htransition₀, htransition₁⟩ := Double.isShare_exact htransition
  have hsum := Rounds.add hfinite hfinite' (abs_le.mpr ⟨by linarith, by linarith⟩)
  have hlt : Scalar.lt depth (size + transition) = true :=
    (Double.not_le_iff_lt (Double.isNaN_of_le hbelow).2 (Double.isNaN_of_isFinite hsum.finite)).mp
      habove
  have hdepth := Double.isFinite_of_between hfinite hsum.finite hbelow (Double.scalar_le_of_lt hlt)
  have hstart := Double.exact_le_of_scalar_le hfinite hdepth hbelow
  have hend : exact (value depth) ≤ exact (value size) + exact (value transition) := by
    by_contra hpast
    rw [not_le] at hpast
    have hle := hsum.scalar_le (Rounds.refl hdepth) hpast.le
    rw [hle] at habove
    exact Bool.noConfusion habove
  have hway : Rounds (depth - size) (exact (value depth) - exact (value size)) :=
    Rounds.sub hdepth hfinite (abs_le.mpr ⟨by linarith, by linarith⟩)
  have hpositive : Scalar.lt 0.0 transition = true := by
    rw [Double.isWeight_pos_iff htransition.1]
    have hzero := transition_ne_zero habove hbelow
    rwa [Scalar.same, htransition.1, Bool.and_true] at hzero
  have hle : Scalar.le (depth - size) transition = true :=
    hway.scalar_le (Rounds.refl hfinite') (by linarith)
  have hweighs : Weighs (depth - size) := ⟨Double.isWeight_sub hdepth hfinite hbelow, hway.finite⟩
  exact ⟨hdepth, hpositive, hway.finite, Double.isShare_div hweighs hpositive hle⟩

/-- Deeper within a transition, less roughness makes a cave. -/
theorem Within.le (h : Within size transition depth) (h' : Within size transition depth')
    (hsize : Scalar.IsShare size) (hle : Scalar.le depth depth' = true) :
    Scalar.le (1.0 - (depth' - size) / transition) (1.0 - (depth - size) / transition) = true := by
  have hfinite := (Double.isShare_exact hsize).1
  have hway : Scalar.le (depth - size) (depth' - size) = true :=
    Double.scalar_le_sub h.finite h'.finite hfinite hfinite hle (Double.scalar_le_refl hfinite)
  have hshare := Double.scalar_le_div h.way h'.way h.positive hway
  exact Double.scalar_sub_le_sub_left (Double.isShare_exact h.share).1
    (Double.isShare_exact h'.share).1 rfl hshare

/-- Below a cave everything is cave that is as rough, or rougher. -/
theorem at?_mono (hsize : Scalar.IsShare size) (htransition : Scalar.IsShare transition)
    (hdepth : Scalar.le depth depth' = true)
    (hrough : ∀ edge, Scalar.lt edge n = true → Scalar.lt edge n' = true)
    (hcave : at? size transition depth (.ok n) = .ok .cave) :
    at? size transition depth' (.ok n') = .ok .cave := by
  by_cases hbelow' : Scalar.le (size + transition) depth' = true
  · exact at?_below hbelow'
  have hbelow : ¬Scalar.le (size + transition) depth = true :=
    fun h => hbelow' (Double.scalar_le_trans h hdepth)
  rw [Bool.not_eq_true] at hbelow hbelow'
  cases hdeep : Scalar.le size depth with
  | false =>
    simp only [at?, hbelow, hdeep] at hcave
    cases hcave
  | true =>
    have hdeep' := Double.scalar_le_trans hdeep hdepth
    have hedge := (within hsize htransition hbelow hdeep).le
      (within hsize htransition hbelow' hdeep') hsize hdepth
    rw [at?_within hbelow hdeep] at hcave
    rw [at?_within hbelow' hdeep']
    obtain ⟨_, hn, hcave⟩ := map_eq_ok.mp hcave
    obtain rfl := Except.ok.inj hn
    split_ifs at hcave with hlt
    exact congrArg Except.ok (if_pos (hrough _ (Double.scalar_lt_of_le_of_lt hedge hlt)))

end Stratum

namespace Producer
variable {p : Producer Float} {area : Window} {rough : ℤ → ℤ → Except Fault Float} {x y x' y' : ℤ}
  {n n' : Float}

theorem stratumAt?_of_local? {depth : Float} (h : area.rows.local? y = .ok depth) :
    p.stratumAt? area rough x y =
      Stratum.at? p.surfaceSize p.surfaceTransition depth (rough x y) := by
  rw [stratumAt?, h, ok_bind]

/-- Every cell of an area whose roughness is a number is surface or cave. -/
theorem exists_stratumAt? (hcell : area.contains x y = true) (hrough : ∃ n, rough x y = .ok n) :
    ∃ s, p.stratumAt? area rough x y = .ok s := by
  obtain ⟨-, hy⟩ := Bool.and_eq_true_iff.mp hcell
  obtain ⟨depth, hdepth⟩ := Interval.exists_local? hy
  rw [stratumAt?_of_local? hdepth]
  exact Stratum.exists_at? p.surfaceSize p.surfaceTransition depth hrough

section Shares
variable (hsize : Scalar.IsShare p.surfaceSize) (htransition : Scalar.IsShare p.surfaceTransition)
include hsize htransition

/-- A cell below a cave is cave if it is no smoother. -/
theorem stratumAt?_mono (hcell : area.contains x y = true) (hcell' : area.contains x' y' = true)
    (hy : y ≤ y') (hn : rough x y = .ok n) (hn' : rough x' y' = .ok n')
    (hrough : ∀ edge, Scalar.lt edge n = true → Scalar.lt edge n' = true)
    (hcave : p.stratumAt? area rough x y = .ok .cave) :
    p.stratumAt? area rough x' y' = .ok .cave := by
  obtain ⟨-, hrow⟩ := Bool.and_eq_true_iff.mp hcell
  obtain ⟨-, hrow'⟩ := Bool.and_eq_true_iff.mp hcell'
  obtain ⟨depth, hdepth⟩ := Interval.exists_local? hrow
  obtain ⟨depth', hdepth'⟩ := Interval.exists_local? hrow'
  have hextent := (Interval.Holds.of_contains hrow).extent_nonneg
  have hle := (Interval.rounds_local? hdepth).scalar_le (Interval.rounds_local? hdepth')
    (Interval.place_mono hextent hy)
  rw [stratumAt?_of_local? hdepth, hn] at hcave
  rw [stratumAt?_of_local? hdepth', hn']
  exact Stratum.at?_mono hsize htransition hle hrough hcave

/-- A column of one roughness is surface down to a border, and cave from there on. -/
theorem exists_border (hcolumn : ∀ y, area.contains x y = true → rough x y = .ok n) :
    ∃ border, ∀ y, area.contains x y = true →
      p.stratumAt? area rough x y = .ok (if y < border then .surface else .cave) := by
  have hdecided {y : ℤ} (hy : area.contains x y = true) :=
    exists_stratumAt? (p := p) hy ⟨n, hcolumn y hy⟩
  by_cases hcaves : ∃ y, area.contains x y = true ∧ p.stratumAt? area rough x y = .ok .cave
  · -- the topmost cave of the column
    obtain ⟨border, ⟨hborder, hcave⟩, hleast⟩ := Int.exists_least_of_bdd
      ⟨area.rows.start, fun y hy => ((area.contains_iff x y).mp hy.1).2.1⟩ hcaves
    refine ⟨border, fun y hy => ?_⟩
    split_ifs with habove
    · obtain ⟨s, hs⟩ := hdecided hy
      cases s with
      | surface => exact hs
      | cave =>
        have := hleast y ⟨hy, hs⟩
        omega
    · exact stratumAt?_mono hsize htransition hborder hy (not_lt.mp habove) (hcolumn _ hborder)
        (hcolumn y hy) (fun _ => id) hcave
  · -- no cave at all
    refine ⟨area.rows.stop, fun y hy => ?_⟩
    rw [if_pos ((area.contains_iff x y).mp hy).2.2]
    obtain ⟨s, hs⟩ := hdecided hy
    cases s with
    | surface => exact hs
    | cave => exact absurd ⟨y, hy, hs⟩ hcaves

/-- Above the transition of an area lies its surface and below it are its caves, whatever the
roughness would be and whether or not it can be read. Only within a transition of some size its
share is taken and the roughness decides, so that every cell has its part. A cell that lies no
higher than a cave and is no smoother is cave as well, so that columns of one roughness are surface
down to a border and cave below. -/
theorem strata_in_order :
    (∀ x y, area.contains x y = true → ∃ depth, area.rows.local? y = .ok depth ∧
        (Scalar.lt depth p.surfaceSize = true →
          ∀ rough, p.biomeAt? area rough x y = .ok p.surface) ∧
        (Scalar.le (p.surfaceSize + p.surfaceTransition) depth = true →
          ∀ rough, p.biomeAt? area rough x y = .ok p.cave)) ∧
      (∀ depth, Scalar.le (p.surfaceSize + p.surfaceTransition) depth = false →
        Scalar.le p.surfaceSize depth = true → Scalar.same p.surfaceTransition 0.0 = false ∧
          ∀ roughness, Stratum.at? p.surfaceSize p.surfaceTransition depth roughness = (fun n =>
            if Scalar.lt (1.0 - (depth - p.surfaceSize) / p.surfaceTransition) n then .cave
            else .surface) <$> roughness) ∧
      ∀ rough, (∀ x y, area.contains x y = true → ∃ n, rough x y = .ok n) →
        (∀ x y, area.contains x y = true → ∃ s, p.stratumAt? area rough x y = .ok s ∧
          p.biomeAt? area rough x y = .ok (p.biome s)) ∧
        (∀ x y x' y' n n', area.contains x y = true → area.contains x' y' = true → y ≤ y' →
          rough x y = .ok n → rough x' y' = .ok n' → Scalar.le n n' = true →
          p.stratumAt? area rough x y = .ok .cave → p.stratumAt? area rough x' y' = .ok .cave) ∧
        ∀ x n, (∀ y, area.contains x y = true → rough x y = .ok n) →
          ∃ border, ∀ y, area.contains x y = true →
            p.stratumAt? area rough x y = .ok (if y < border then .surface else .cave) := by
  refine ⟨fun x y hcell => ?_, fun depth habove hbelow =>
    ⟨Stratum.transition_ne_zero habove hbelow, Stratum.at?_within habove hbelow⟩,
    fun rough hrough => ⟨?_, ?_, ?_⟩⟩
  · obtain ⟨-, hy⟩ := Bool.and_eq_true_iff.mp hcell
    obtain ⟨depth, hdepth⟩ := Interval.exists_local? hy
    refine ⟨depth, hdepth, fun habove rough => ?_, fun hbelow rough => ?_⟩
    · rw [biomeAt?_eq_map, stratumAt?_of_local? hdepth, Stratum.at?_above hsize htransition habove]
      rfl
    · rw [biomeAt?_eq_map, stratumAt?_of_local? hdepth, Stratum.at?_below hbelow]
      rfl
  · intro x y hcell
    obtain ⟨s, hs⟩ := exists_stratumAt? hcell (hrough x y hcell)
    refine ⟨s, hs, ?_⟩
    rw [biomeAt?_eq_map, hs]
    rfl
  · intro x y x' y' n n' hcell hcell' hy hn hn' hle
    exact stratumAt?_mono hsize htransition hcell hcell' hy hn hn'
      fun edge hlt => Double.scalar_lt_of_lt_of_le hlt hle
  · exact fun x n => exists_border hsize htransition

end Shares

/-- Surface 1 down to three tenths of an area, and cave 0 from its half. -/
def sampleProducer : Producer Float := ⟨0.3, 0.2, 1, 0⟩

def sampleArea : Window := ⟨⟨0, 10⟩, ⟨0, 10⟩⟩

theorem strata_in_order_sample :
    sampleProducer.biomeAt? sampleArea (fun _ _ => .error .noValue) 0 2 = .ok 1 ∧
      ∃ border, ∀ y, sampleArea.contains 0 y = true →
        sampleProducer.stratumAt? sampleArea (fun _ _ => .ok 0.9) 0 y =
          .ok (if y < border then .surface else .cave) := by
  obtain ⟨houter, -, hrough⟩ :=
    @strata_in_order sampleProducer sampleArea (by decide +kernel) (by decide +kernel)
  obtain ⟨-, -, hcolumns⟩ := hrough (fun _ _ => .ok 0.9) fun _ _ _ => ⟨0.9, rfl⟩
  obtain ⟨depth, hdepth, habove, -⟩ := houter 0 2 (by decide)
  have hplace : sampleArea.rows.local? 2 = .ok (0.2 : Float) := rfl
  obtain rfl : 0.2 = depth := Except.ok.inj (hplace.symm.trans hdepth)
  exact ⟨habove (by decide +kernel) _, hcolumns 0 0.9 fun _ _ => rfl⟩

end Producer
end TileWorld
