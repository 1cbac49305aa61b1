import TileWorld.Proofs.Baking.Guards
import TileWorld.Proofs.Baking.Strokes
import TileWorld.Proofs.Noise.Field
import TileWorld.Proofs.Number.Exact

/-! Which child a selection paints with. The scan for the first threshold above a value counts the
thresholds that do not lie above it, as long as they go up; thresholds made of weights cut the unit
interval into the shares of the children. -/
namespace TileWorld.Brush

section Pick
variable {α : Type} [Scalar α]

/-- The number of the child for a sampled value: of the first threshold above it, else of the
last. -/
def pick (thresholds : List α) (v : α) : ℕ := thresholds.dropLast.findIdx (Scalar.lt v)

@[simp] theorem pick_singleton (t v : α) : pick [t] v = 0 := rfl

theorem pick_of_lt {t v : α} (h : Scalar.lt v t = true) (rest : List α) :
    pick (t :: rest) v = 0 := by
  cases rest with
  | nil => rfl
  | cons u rest => rw [pick, List.dropLast_cons_cons, List.findIdx_cons, h]; rfl

theorem pick_of_not_lt {t v : α} (h : Scalar.lt v t = false) {rest : List α} (hne : rest ≠ []) :
    pick (t :: rest) v = pick rest v + 1 := by
  obtain ⟨u, rest, rfl⟩ := List.exists_cons_of_ne_nil hne
  rw [pick, List.dropLast_cons_cons, List.findIdx_cons, h]
  rfl

theorem choose_eq (v : α) (children : List (α × BakedBrush)) :
    choose v children = children[pick (children.map Prod.fst) v]?.map Prod.snd := by
  induction children with
  | nil => rfl
  | cons c rest ih =>
    cases rest with
    | nil => rfl
    | cons d rest =>
      simp only [choose, ih]
      split_ifs with hlt
      · rw [List.map_cons, pick_of_lt hlt]
        rfl
      · have hne : (d :: rest).map Prod.fst ≠ [] := List.cons_ne_nil _ _
        rw [List.map_cons (a := c), pick_of_not_lt (Bool.eq_false_iff.mpr hlt) hne]
        rfl

theorem pick_lt {thresholds : List α} (h : thresholds ≠ []) (v : α) :
    pick thresholds v < thresholds.length := by
  have hle : pick thresholds v ≤ thresholds.dropLast.length := List.findIdx_le_length
  have hpos := List.length_pos_of_ne_nil h
  rw [List.length_dropLast] at hle
  omega

/-- Where thresholds go up, those that do not lie above a value come first. -/
theorem pick_eq_countP {thresholds : List α} {v : α}
    (hflip : ∀ t ∈ thresholds, Scalar.lt v t = !Scalar.le t v)
    (hordered : thresholds.Pairwise fun t u => Scalar.le u v = true → Scalar.le t v = true) :
    pick thresholds v = min (thresholds.length - 1) (thresholds.countP (Scalar.le · v)) := by
  induction thresholds with
  | nil => rfl
  | cons t rest ih =>
    rw [List.forall_mem_cons] at hflip
    rw [List.pairwise_cons] at hordered
    cases rest with
    | nil => simp
    | cons u rest =>
      by_cases hle : Scalar.le t v = true
      · rw [pick_of_not_lt (by rw [hflip.1, hle]; rfl) (List.cons_ne_nil u rest),
          ih hflip.2 hordered.2, List.countP_cons_of_pos (a := t) hle, List.length_cons (a := t)]
        simp only [List.length_cons]
        omega
      · have hnone : (t :: u :: rest).countP (Scalar.le · v) = 0 :=
          List.countP_eq_zero.mpr (List.forall_mem_cons.mpr
            ⟨hle, fun s hs => mt (hordered.1 s hs) hle⟩)
        rw [pick_of_lt (by rw [hflip.1, Bool.eq_false_iff.mpr hle]; rfl), hnone, Nat.min_zero]

/-- Made ready, the selection paints a cell at which its sampler gives `v` as child number `turn v`
alone paints it. -/
def PaintsBy [NoiseSource α] (turn : α → ℕ) (s : Sampler α) (children : List (α × Brush α)) :
    Prop :=
  ∀ ctx pass baked, (selector s children).bake ctx pass = .ok baked →
    ∃ sample, s.bake ctx pass = .ok sample ∧ ∀ x y v, sample x y = .ok v →
      ∃ c child, children[turn v]? = some c ∧ c.2.bake ctx pass = .ok child ∧
        baked x y = child x y

theorem paintsBy_pick [NoiseSource α] (s : Sampler α) {children : List (α × Brush α)}
    (h : children ≠ []) : PaintsBy (pick (children.map Prod.fst)) s children := by
  intro ctx pass baked hbaked
  obtain ⟨sample, hsample, bs, hbs, rfl⟩ := bake_selector_eq_ok.mp hbaked
  refine ⟨sample, hsample, fun x y v hv => ?_⟩
  have hthresholds : bs.map Prod.fst = children.map Prod.fst :=
    map_eq_map_of_forall₂ hbs fun c d hcd => hcd.1
  have hne : children.map Prod.fst ≠ [] := mt List.map_eq_nil_iff.mp h
  have hlt := pick_lt hne v
  rw [← hthresholds, List.length_map] at hlt
  obtain ⟨c, hc, -, hchild⟩ := forall₂_getElem? hbs (List.getElem?_eq_getElem hlt)
  rw [hthresholds] at hc
  refine ⟨c, _, hc, hchild, ?_⟩
  rw [chosen?, hv, ok_bind, choose_eq, List.getElem?_eq_getElem hlt]
  rfl

end Pick

section Numbers
variable {thresholds : List Float} {v w : Float}

/-- A non-number lies below no threshold. -/
theorem pick_of_isNaN (thresholds : List Float) (hv : v.isNaN = true) :
    pick thresholds v = thresholds.length - 1 := by
  have hnone : ∀ t ∈ thresholds.dropLast, Scalar.lt v t = false := by
    intro t _
    rw [Bool.eq_false_iff]
    intro hlt
    have hnumber := (Double.isNaN_of_le (Double.scalar_le_of_lt hlt)).1
    rw [hv] at hnumber
    exact Bool.noConfusion hnumber
  rw [pick, List.findIdx_eq_length_of_false hnone, List.length_dropLast]

/-- Among thresholds in order the child is found by counting those that a number has reached. -/
theorem Steps.pick_eq_countP (h : Steps thresholds) (hv : v.isNaN = false) :
    pick thresholds v = min (thresholds.length - 1) (thresholds.countP (Scalar.le · v)) := by
  refine Brush.pick_eq_countP (fun t ht => ?_) (h.ordered.imp fun htu huv => ?_)
  · rw [Bool.eq_iff_iff, ← Double.not_le_iff_lt hv (h.isNaN t ht), Bool.not_eq_true']
  · exact Double.scalar_le_trans htu huv

theorem Steps.pick_mono (h : Steps thresholds) (hvw : Scalar.le v w = true) :
    pick thresholds v ≤ pick thresholds w := by
  obtain ⟨hv, hw⟩ := Double.isNaN_of_le hvw
  rw [h.pick_eq_countP hv, h.pick_eq_countP hw]
  have hcount : thresholds.countP (Scalar.le · v) ≤ thresholds.countP (Scalar.le · w) :=
    List.countP_mono_left fun t _ htv => Double.scalar_le_trans htv hvw
  omega

end Numbers

section Shares
variable {total reached v : ℚ} {children : List (ℚ × Brush ℚ)}

theorem map_snd_cumulative (total reached : ℚ) (children : List (ℚ × Brush ℚ)) :
    (cumulative total reached children).map Prod.snd = children.map Prod.snd := by
  induction children generalizing reached with
  | nil => rfl
  | cons c rest ih => rw [cumulative, List.map_cons, List.map_cons, ih]

theorem cumulative_ne_nil (total reached : ℚ) (hne : children ≠ []) :
    cumulative total reached children ≠ [] := by
  obtain ⟨c, rest, rfl⟩ := List.exists_cons_of_ne_nil hne
  exact List.cons_ne_nil _ _

theorem getLast?_cumulative (total reached : ℚ) (hne : children ≠ []) :
    ((cumulative total reached children).map Prod.fst).getLast? =
      some (reached + (children.map Prod.fst).sum / total) := by
  induction children generalizing reached with
  | nil => exact absurd rfl hne
  | cons c rest ih =>
    cases rest with
    | nil => simp [cumulative]
    | cons d rest =>
      have hrest := ih (reached + c.1 / total) (List.cons_ne_nil d rest)
      rw [cumulative, List.map_cons, cumulative, List.map_cons, List.getLast?_cons_cons]
      rw [cumulative, List.map_cons] at hrest
      rw [hrest, List.map_cons (a := c), List.sum_cons, add_div, add_assoc]

/-- Running totals that end at one pass the guard. -/
theorem increasing_cumulative (htotal : 0 < total) (hweights : ∀ c ∈ children, 0 ≤ c.1)
    (hreached : reached + (children.map Prod.fst).sum / total ≤ 1) :
    increasing reached ((cumulative total reached children).map Prod.fst) = true := by
  induction children generalizing reached with
  | nil => rfl
  | cons c rest ih =>
    rw [List.forall_mem_cons] at hweights
    rw [List.map_cons, List.sum_cons, add_div, ← add_assoc] at hreached
    have hshare : 0 ≤ c.1 / total := div_nonneg hweights.1 htotal.le
    have hrest : 0 ≤ (rest.map Prod.fst).sum / total :=
      div_nonneg (List.sum_nonneg (List.forall_mem_map.mpr hweights.2)) htotal.le
    have hlow : Scalar.lt (reached + c.1 / total) reached = false :=
      decide_eq_false (by linarith)
    have hhigh : Scalar.lt (1.0 + 1e-6) (reached + c.1 / total) = false :=
      decide_eq_false (by norm_num; linarith)
    rw [cumulative, List.map_cons, increasing, hlow, hhigh]
    exact ih hweights.2 hreached

/-- A number lies in the share of the child that is picked for it, and in no other. -/
theorem pick_cumulative_iff (htotal : 0 < total) (hweights : ∀ c ∈ children, 0 ≤ c.1)
    (hlow : reached ≤ v) (hhigh : v < reached + (children.map Prod.fst).sum / total) (i : ℕ) :
    pick ((cumulative total reached children).map Prod.fst) v = i ↔
      reached + ((children.take i).map Prod.fst).sum / total ≤ v ∧
        v < reached + ((children.take (i + 1)).map Prod.fst).sum / total := by
  induction children generalizing reached i with
  | nil =>
    rw [List.map_nil, List.sum_nil, zero_div, add_zero] at hhigh
    exact absurd hlow hhigh.not_ge
  | cons c rest ih =>
    rw [List.forall_mem_cons] at hweights
    rw [List.map_cons, List.sum_cons, add_div, ← add_assoc] at hhigh
    rw [cumulative, List.map_cons]
    by_cases hv : v < reached + c.1 / total
    · rw [pick_of_lt (Scalar.lt_rat.mpr hv)]
      cases i with
      | zero => simp [hlow, hv]
      | succ i =>
        -- The shares of later children start no earlier than that of this one stops.
        have hrest : 0 ≤ ((rest.take i).map Prod.fst).sum / total := by
          refine div_nonneg (List.sum_nonneg (List.forall_mem_map.mpr fun d hd => ?_)) htotal.le
          exact hweights.2 d (List.mem_of_mem_take hd)
        rw [List.take_succ_cons, List.map_cons, List.sum_cons, add_div]
        refine iff_of_false (Nat.succ_ne_zero i).symm fun hshare => ?_
        linarith [hshare.1]
    · have hnext : reached + c.1 / total ≤ v := not_lt.mp hv
      have hne : rest ≠ [] := by
        rintro rfl
        rw [List.map_nil, List.sum_nil, zero_div, add_zero] at hhigh
        exact hv hhigh
      rw [pick_of_not_lt (Bool.eq_false_iff.mpr (mt Scalar.lt_rat.mp hv))
        (mt List.map_eq_nil_iff.mp (cumulative_ne_nil _ _ hne))]
      cases i with
      | zero =>
        refine iff_of_false (Nat.succ_ne_zero _) fun hshare => ?_
        rw [List.take_succ_cons, List.take_zero, List.map_cons, List.sum_cons] at hshare
        simp at hshare
        linarith
      | succ i =>
        rw [Nat.add_right_cancel_iff, ih hweights.2 hnext hhigh i]
        rw [List.take_succ_cons, List.take_succ_cons]
        simp only [List.map_cons, List.sum_cons, add_div, add_assoc]

/-- Weights that are not negative make a selection, unless they are all zero. -/
theorem weighted?_rat (s : Sampler ℚ) (hweights : ∀ c ∈ children, 0 ≤ c.1)
    (htotal : 0 < (children.map Prod.fst).sum) :
    weighted? s children =
      .ok (.selector s (cumulative (children.map Prod.fst).sum 0 children)) := by
  have hempty : children ≠ [] := by
    rintro rfl
    exact htotal.ne rfl
  have hempty' : (cumulative (children.map Prod.fst).sum 0 children).isEmpty = false :=
    List.isEmpty_eq_false_iff.mpr (cumulative_ne_nil _ _ hempty)
  have hfull : 0 + (children.map Prod.fst).sum / (children.map Prod.fst).sum ≤ 1 := by
    rw [div_self htotal.ne', zero_add]
  rw [weighted?_eq_ok, Scalar.sum_rat, Scalar.zero_rat, selector?_eq_ok, Scalar.zero_rat]
  exact ⟨⟨List.isEmpty_eq_false_iff.mpr hempty, decide_eq_false htotal.not_ge⟩,
    ⟨hempty', increasing_cumulative htotal hweights hfull⟩, rfl⟩

theorem sum_equal_weights (brushes : List (Brush ℚ)) :
    ((brushes.map ((1 : ℚ), ·)).map Prod.fst).sum = brushes.length := by
  have hone : Prod.fst ∘ ((1 : ℚ), ·) = fun _ : Brush ℚ => (1 : ℚ) := rfl
  rw [List.map_map, hone, List.map_const', List.sum_replicate, nsmul_eq_mul, mul_one]

/-- Equal shares are counted off. -/
theorem pick_even {brushes : List (Brush ℚ)} (hne : brushes ≠ []) (hlow : 0 ≤ v) (hhigh : v < 1) :
    pick ((cumulative (brushes.length : ℚ) 0 (brushes.map ((1 : ℚ), ·))).map Prod.fst) v =
      ⌊brushes.length * v⌋₊ := by
  have hpos : (0 : ℚ) < brushes.length := by exact_mod_cast List.length_pos_of_ne_nil hne
  have hfloor : ⌊brushes.length * v⌋₊ < brushes.length :=
    (Nat.floor_lt (by positivity)).mpr (mul_lt_of_lt_one_right hpos hhigh)
  have hsum (k : ℕ) (hk : k ≤ brushes.length) :
      (((brushes.map ((1 : ℚ), ·)).take k).map Prod.fst).sum = k := by
    rw [← List.map_take, sum_equal_weights, List.length_take, Nat.min_eq_left hk]
  have hwithin : v < 0 + ((brushes.map ((1 : ℚ), ·)).map Prod.fst).sum / brushes.length := by
    rwa [sum_equal_weights, div_self hpos.ne', zero_add]
  rw [pick_cumulative_iff hpos (List.forall_mem_map.mpr fun _ _ => zero_le_one) hlow hwithin,
    hsum _ hfloor.le, hsum _ hfloor, zero_add, zero_add, div_le_iff₀' hpos, lt_div_iff₀' hpos]
  push_cast
  exact ⟨Nat.floor_le (by positivity), Nat.lt_floor_add_one _⟩

end Shares

/-- How selections go by thresholds and by weights. Among thresholds that are numbers the child is
found by counting those that the value has reached, and a non-number gets the last child. In exact
arithmetic weights make thresholds up to one, so that each child is picked in its share of the unit
interval, which is empty for weight zero; equal shares are counted off. -/
theorem picks_by_count_and_share [NoiseSource Float] [NoiseSource ℚ] :
    (∀ (s : Sampler Float) (children : List (Float × Brush Float)) (b : Brush Float),
      selector? s children = .ok b → (∀ c ∈ children, c.1.isNaN = false) →
        b = .selector s children ∧ PaintsBy (pick (children.map Prod.fst)) s children ∧
        (∀ v, pick (children.map Prod.fst) v = if v.isNaN then children.length - 1
          else min (children.length - 1) (children.countP fun c => Scalar.le c.1 v)) ∧
        ∀ v w, Scalar.le v w = true →
          pick (children.map Prod.fst) v ≤ pick (children.map Prod.fst) w) ∧
    (∀ (s : Sampler ℚ) (children : List (ℚ × Brush ℚ)), (∀ c ∈ children, 0 ≤ c.1) →
      0 < (children.map Prod.fst).sum →
        ∃ shares : List (ℚ × Brush ℚ), weighted? s children = .ok (.selector s shares) ∧
          shares.map Prod.snd = children.map Prod.snd ∧
          (shares.map Prod.fst).getLast? = some 1 ∧
          PaintsBy (pick (shares.map Prod.fst)) s shares ∧
          ∀ v, 0 ≤ v → v < 1 →
            (∀ i, pick (shares.map Prod.fst) v = i ↔
              ((children.take i).map Prod.fst).sum / (children.map Prod.fst).sum ≤ v ∧
              v < ((children.take (i + 1)).map Prod.fst).sum / (children.map Prod.fst).sum) ∧
            ∀ i b, children[i]? = some (0, b) → pick (shares.map Prod.fst) v ≠ i) ∧
    ∀ (s : Sampler ℚ) (brushes : List (Brush ℚ)), brushes ≠ [] →
      ∃ shares : List (ℚ × Brush ℚ), even? s brushes = .ok (.selector s shares) ∧
        shares.map Prod.snd = brushes ∧ PaintsBy (pick (shares.map Prod.fst)) s shares ∧
        ∀ v, 0 ≤ v → v < 1 → pick (shares.map Prod.fst) v = ⌊brushes.length * v⌋₊ := by
  refine ⟨fun s children b hmade hnumbers => ?_, fun s children hweights htotal => ?_,
    fun s brushes hne => ?_⟩
  · obtain ⟨hempty, -⟩ := (selector?_eq_ok.mp hmade).1
    obtain ⟨rfl, hiff⟩ := selector?_steps_iff hmade
    have hsteps := hiff.mpr hnumbers
    refine ⟨rfl, paintsBy_pick s (List.isEmpty_eq_false_iff.mp hempty), fun v => ?_,
      fun v w => hsteps.pick_mono⟩
    cases hv : v.isNaN with
    | true => rw [pick_of_isNaN _ hv, List.length_map]; rfl
    | false =>
      rw [hsteps.pick_eq_countP hv, List.length_map, List.countP_map]
      rfl
  · have hne : children ≠ [] := by
      rintro rfl
      exact htotal.ne rfl
    have hfull : 0 + (children.map Prod.fst).sum / (children.map Prod.fst).sum = 1 := by
      rw [div_self htotal.ne', zero_add]
    refine ⟨_, weighted?_rat s hweights htotal, map_snd_cumulative _ _ _, ?_, ?_,
      fun v hlow hhigh => ?_⟩
    · rw [getLast?_cumulative _ _ hne, hfull]
    · exact paintsBy_pick s (cumulative_ne_nil _ _ hne)
    · have hiff := pick_cumulative_iff htotal hweights hlow (hhigh.trans_eq hfull.symm)
      simp only [zero_add] at hiff
      refine ⟨hiff, fun i b hi hpick => ?_⟩
      obtain ⟨hstart, hstop⟩ := (hiff i).mp hpick
      rw [List.take_add_one, hi, Option.toList_some, List.map_append, List.sum_append,
        List.map_singleton, List.sum_singleton, add_zero] at hstop
      exact hstop.not_ge hstart
  · have hpos : (0 : ℚ) < ((brushes.map ((1 : ℚ), ·)).map Prod.fst).sum := by
      rw [sum_equal_weights]
      exact_mod_cast List.length_pos_of_ne_nil hne
    have hweighted := weighted?_rat s (List.forall_mem_map.mpr fun _ _ => zero_le_one) hpos
    rw [sum_equal_weights] at hweighted
    refine ⟨_, by rw [even?, Scalar.one_rat, hweighted], ?_, ?_, fun v => pick_even hne⟩
    · rw [map_snd_cumulative, List.map_map]
      exact List.map_id brushes
    · exact paintsBy_pick s (cumulative_ne_nil _ _ (mt List.map_eq_nil_iff.mp hne))

/-- A threshold met twice. -/
def stepped : List (Float × Brush Float) :=
  [(0.25, .fill (.int 1)), (0.25, .ignore), (0.75, .fill (.int 3))]

/-- A value on a threshold and one that is no number; a child of weight zero between two others. -/
theorem picks_by_count_and_share_sample :
    (pick (stepped.map Prod.fst) 0.25 = 2 ∧ pick (stepped.map Prod.fst) (0.0 / 0.0) = 2) ∧
    (∃ shares : List (ℚ × Brush ℚ),
      weighted? .across [(1, .ignore), (0, .fill (.int 2)), (3, .fill (.int 3))] =
        .ok (.selector .across shares) ∧ pick (shares.map Prod.fst) (1 / 4) = 2) ∧
    ∃ shares : List (ℚ × Brush ℚ), even? .across [.ignore, .fill (.int 2), .fill (.int 3)] =
      .ok (.selector .across shares) ∧ pick (shares.map Prod.fst) (1 / 2) = 1 := by
  obtain ⟨hcount, hshare, heven⟩ := @picks_by_count_and_share inferInstance Field.plane
  refine ⟨?_, ?_, ?_⟩
  · have hmade : selector? (.const 0.0) stepped = .ok (.selector (.const 0.0) stepped) :=
      selector?_eq_ok.mpr ⟨⟨rfl, by decide⟩, rfl⟩
    obtain ⟨-, -, hpick, -⟩ := hcount _ _ _ hmade (by decide)
    exact ⟨(hpick 0.25).trans (by decide), (hpick (0.0 / 0.0)).trans (by decide)⟩
  · obtain ⟨shares, hmade, -, -, -, hpick⟩ := hshare .across
      [(1, .ignore), (0, .fill (.int 2)), (3, .fill (.int 3))] (by simp) (by norm_num)
    refine ⟨shares, hmade, ((hpick (1 / 4) (by norm_num) (by norm_num)).1 2).mpr ?_⟩
    norm_num
  · obtain ⟨shares, hmade, -, -, hpick⟩ := heven .across
      [.ignore, .fill (.int 2), .fill (.int 3)] (List.cons_ne_nil _ _)
    refine ⟨shares, hmade, (hpick (1 / 2) (by norm_num) (by norm_num)).trans ?_⟩
    norm_num

end TileWorld.Brush
