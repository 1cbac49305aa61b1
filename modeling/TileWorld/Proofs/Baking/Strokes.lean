import TileWorld.Proofs.Baking.Tree

/-! What brushes do to one cell. A brush that hands the value of the cell from layer to layer keeps
the cell or paints it, and which of the two does not depend on what the cell holds: made ready, it is
one stroke. -/
namespace TileWorld

namespace Stroke

theorem keep_andThen (s : Stroke) : keep.andThen s = s := by cases s <;> rfl

theorem andThen_assoc (s t u : Stroke) : (s.andThen t).andThen u = s.andThen (t.andThen u) := by
  cases u <;> rfl

theorem andThen_eq_paint {s t : Stroke} {v : Value} (h : s.andThen t = .paint v) :
    s = .paint v ∨ t = .paint v := by
  cases t with
  | keep => exact Or.inl h
  | paint w => exact Or.inr h

end Stroke

namespace Brush
variable {α : Type}

/-- Brushes that have a rule at every node. -/
inductive Definite : Brush α → Prop where
  | fill (v : Value) : Definite (fill v)
  | ignore : Definite ignore
  | layers {brushes : List (Brush α)} (hbrushes : ∀ b ∈ brushes, Definite b) :
      Definite (layers brushes)
  | selector (s : Sampler α) {children : List (α × Brush α)}
      (hchildren : ∀ c ∈ children, Definite c.2) : Definite (selector s children)

mutual

/-- The values at the leaves that paint. -/
def fills : Brush α → List Value
  | fill v => [v]
  | layers brushes => fillsOf brushes
  | selector _ children => childFills children
  | _ => []

def fillsOf : List (Brush α) → List Value
  | [] => []
  | b :: rest => fills b ++ fillsOf rest

def childFills : List (α × Brush α) → List Value
  | [] => []
  | (_, b) :: rest => fills b ++ childFills rest

end

theorem mem_fillsOf {brushes : List (Brush α)} {v : Value} :
    v ∈ fillsOf brushes ↔ ∃ b ∈ brushes, v ∈ b.fills := by
  induction brushes with
  | nil => simp [fillsOf]
  | cons b rest ih => rw [fillsOf, List.mem_append, ih, List.exists_mem_cons_iff]

theorem mem_childFills {children : List (α × Brush α)} {v : Value} :
    v ∈ childFills children ↔ ∃ c ∈ children, v ∈ c.2.fills := by
  induction children with
  | nil => simp [childFills]
  | cons c rest ih => rw [childFills, List.mem_append, ih, List.exists_mem_cons_iff]

section Reading
variable {bs cs : List BakedBrush} {x y : Int}

/-- What was done before goes ahead of what a row of brushes does. -/
theorem strokes?_eq (done : Stroke) : strokes? bs x y done = done.andThen <$> strokes? bs x y .keep := by
  induction bs generalizing done with
  | nil => rfl
  | cons b rest ih =>
    simp only [strokes?]
    cases b x y with
    | error e => rfl
    | ok s =>
      rw [ok_bind, ok_bind, ih (done.andThen s), ih (Stroke.keep.andThen s), Stroke.keep_andThen]
      cases strokes? rest x y .keep with
      | error e => rfl
      | ok t => exact congrArg Except.ok (Stroke.andThen_assoc done s t)

theorem strokes?_append (done : Stroke) :
    strokes? (bs ++ cs) x y done = strokes? bs x y done >>= strokes? cs x y := by
  induction bs generalizing done with
  | nil => rfl
  | cons b rest ih => simp only [List.cons_append, strokes?, ih, bind_assoc]

theorem exists_strokes? (h : ∀ b ∈ bs, ∃ s, b x y = .ok s) (done : Stroke) :
    ∃ s, strokes? bs x y done = .ok s := by
  induction bs generalizing done with
  | nil => exact ⟨done, rfl⟩
  | cons b rest ih =>
    rw [List.forall_mem_cons] at h
    obtain ⟨s, hs⟩ := h.1
    obtain ⟨t, ht⟩ := ih h.2 (done.andThen s)
    exact ⟨t, by rw [strokes?, hs, ok_bind, ht]⟩

theorem strokes?_eq_paint {done : Stroke} {v : Value} (h : strokes? bs x y done = .ok (.paint v)) :
    done = .paint v ∨ ∃ b ∈ bs, b x y = .ok (.paint v) := by
  induction bs generalizing done with
  | nil => exact Or.inl (Except.ok.inj h)
  | cons b rest ih =>
    obtain ⟨s, hs, h⟩ := bind_eq_ok.mp h
    rcases ih h with hdone | ⟨c, hc, hpaint⟩
    · rcases Stroke.andThen_eq_paint hdone with hdone | rfl
      · exact Or.inl hdone
      · exact Or.inr ⟨b, List.mem_cons_self, hs⟩
    · exact Or.inr ⟨c, List.mem_cons_of_mem b hc, hpaint⟩

variable [Scalar α]

theorem choose_mem {v : α} {children : List (α × BakedBrush)} {b : BakedBrush}
    (h : choose v children = some b) : ∃ c ∈ children, c.2 = b := by
  induction children with
  | nil => simp [choose] at h
  | cons c rest ih =>
    cases rest with
    | nil => exact ⟨c, List.mem_cons_self, Option.some.inj h⟩
    | cons c' rest =>
      simp only [choose] at h
      split_ifs at h
      · exact ⟨c, List.mem_cons_self, Option.some.inj h⟩
      · obtain ⟨d, hd, hb⟩ := ih h
        exact ⟨d, List.mem_cons_of_mem c hd, hb⟩

end Reading

section Baking
variable [Scalar α] [NoiseSource α] {ctx : Context} {pass : Window} {baked : BakedBrush} {x y : Int}

theorem bake_layers_eq_ok {brushes : List (Brush α)} :
    (layers brushes).bake ctx pass = .ok baked ↔
      ∃ bs, List.Forall₂ (fun b c => b.bake ctx pass = .ok c) brushes bs ∧
        (fun x y => strokes? bs x y .keep) = baked := by
  rw [bake, bakeAll_eq_mapM, bind_eq_ok]
  simp only [mapM_eq_ok, pure_eq_ok, Except.ok.injEq]

theorem bake_selector_eq_ok {s : Sampler α} {children : List (α × Brush α)} :
    (selector s children).bake ctx pass = .ok baked ↔
      ∃ sample, s.bake ctx pass = .ok sample ∧
        ∃ bs, List.Forall₂ (fun c d => d.1 = c.1 ∧ c.2.bake ctx pass = .ok d.2) children bs ∧
          chosen? sample bs = baked := by
  have hchild (c : α × Brush α) (d : α × BakedBrush) :
      (c.1, ·) <$> c.2.bake ctx pass = .ok d ↔ d.1 = c.1 ∧ c.2.bake ctx pass = .ok d.2 := by
    rw [map_eq_ok]
    constructor
    · rintro ⟨b, hb, rfl⟩
      exact ⟨rfl, hb⟩
    · rintro ⟨hfirst, hb⟩
      exact ⟨d.2, hb, Prod.ext hfirst.symm rfl⟩
  simp only [bake, bakeChildren_eq_mapM, bind_eq_ok, mapM_eq_ok, hchild, pure_eq_ok,
    Except.ok.injEq]

/-- Definite brushes can be made ready, and give a stroke to each cell of a region, when their
samplers can be made ready and give numbers there. -/
theorem Definite.exists_bake {b : Brush α} (hb : b.Definite) {region : Int → Int → Prop}
    (h : ∀ s ∈ b.samplers, ∃ sample, s.bake ctx pass = .ok sample ∧
      ∀ x y, region x y → ∃ v, sample x y = .ok v) :
    ∃ baked, b.bake ctx pass = .ok baked ∧ ∀ x y, region x y → ∃ s, baked x y = .ok s := by
  induction hb with
  | fill v => exact ⟨_, rfl, fun _ _ _ => ⟨_, rfl⟩⟩
  | ignore => exact ⟨_, rfl, fun _ _ _ => ⟨_, rfl⟩⟩
  | layers hbrushes ih =>
    have hsamplers := forall_samplersOf.mp h
    obtain ⟨baked, hbaked, -, hcells⟩ := exists_mapM fun b hb => ih b hb (hsamplers b hb)
    refine ⟨_, bake_layers_eq_ok.mpr ⟨baked, mapM_eq_ok.mp hbaked, rfl⟩, fun x y hxy => ?_⟩
    exact exists_strokes? (fun b hb => hcells b hb x y hxy) .keep
  | @selector s children hchildren ih =>
    rw [samplers, List.forall_mem_cons, forall_childSamplers] at h
    obtain ⟨⟨sample, hsample, hsampled⟩, hrest⟩ := h
    have hchild : ∀ c ∈ children, ∃ d, (c.1, ·) <$> c.2.bake ctx pass = .ok d ∧
        ∀ x y, region x y → ∃ s, d.2 x y = .ok s := by
      intro c hc
      obtain ⟨baked, hbaked, hcells⟩ := ih c hc (hrest c hc)
      exact ⟨(c.1, baked), by rw [hbaked]; rfl, hcells⟩
    obtain ⟨baked, hbaked, -, hcells⟩ := exists_mapM hchild
    refine ⟨chosen? sample baked, ?_, fun x y hxy => ?_⟩
    · rw [bake, hsample, ok_bind, bakeChildren_eq_mapM, hbaked, ok_bind, pure_eq_ok]
    · obtain ⟨v, hv⟩ := hsampled x y hxy
      rw [chosen?, hv, ok_bind]
      cases hchoose : choose v baked with
      | none => exact ⟨_, rfl⟩
      | some c =>
        obtain ⟨d, hd, rfl⟩ := choose_mem hchoose
        exact hcells d hd x y hxy

/-- Only values at the leaves are painted. -/
theorem mem_fills_of_bake {b : Brush α} {v : Value} (h : b.bake ctx pass = .ok baked)
    (hpaint : baked x y = .ok (.paint v)) : v ∈ b.fills := by
  induction b generalizing baked with
  | fill w =>
    obtain rfl := Except.ok.inj h
    obtain rfl : w = v := Stroke.paint.inj (Except.ok.inj hpaint)
    exact List.mem_singleton.mpr rfl
  | ignore =>
    obtain rfl := Except.ok.inj h
    cases hpaint
  | unspecified => cases h
  | layers brushes ih =>
    obtain ⟨bs, hbs, rfl⟩ := bake_layers_eq_ok.mp h
    rcases strokes?_eq_paint hpaint with hkeep | ⟨c, hc, hpaint⟩
    · cases hkeep
    · obtain ⟨b, hb, hbake⟩ := forall₂_exists_mem hbs hc
      exact mem_fillsOf.mpr ⟨b, hb, ih b hb hbake hpaint⟩
  | selector s children ih =>
    obtain ⟨sample, -, bs, hbs, rfl⟩ := bake_selector_eq_ok.mp h
    obtain ⟨u, -, hpaint⟩ := bind_eq_ok.mp hpaint
    cases hchoose : choose u bs with
    | none =>
      rw [hchoose] at hpaint
      cases hpaint
    | some c =>
      rw [hchoose] at hpaint
      obtain ⟨d, hd, rfl⟩ := choose_mem hchoose
      obtain ⟨e, he, -, hbake⟩ := forall₂_exists_mem hbs hd
      exact mem_childFills.mpr ⟨e, he, ih e he hbake hpaint⟩

end Baking

mutual

/-- What a brush makes of the value of a cell of `pass`. Every layer is handed what the layers before
it have left, and a selection hands the value to the child that it chooses. -/
def applied? [Scalar α] [NoiseSource α] :
    Brush α → Context → Window → Int → Int → Value → Except Fault Value
  | fill v, _, _, _, _, _ => pure v
  | ignore, _, _, _, _, current => pure current
  | unspecified, _, _, _, _, _ => .error .unspecified
  | layers brushes, ctx, pass, x, y, current => appliedLayers? brushes ctx pass x y current
  | selector s children, ctx, pass, x, y, current => do
    appliedChild? children ctx pass x y (← s.sample? ctx pass x y) current

def appliedLayers? [Scalar α] [NoiseSource α] :
    List (Brush α) → Context → Window → Int → Int → Value → Except Fault Value
  | [], _, _, _, _, current => pure current
  | b :: rest, ctx, pass, x, y, current => do
    appliedLayers? rest ctx pass x y (← applied? b ctx pass x y current)

/-- The first child whose threshold lies above the sampled value has its way, else the last. -/
def appliedChild? [Scalar α] [NoiseSource α] :
    List (α × Brush α) → Context → Window → Int → Int → α → Value → Except Fault Value
  | [], _, _, _, _, _, current => pure current
  | (t, b) :: rest, ctx, pass, x, y, v, current =>
    if Scalar.lt v t || rest.isEmpty then applied? b ctx pass x y current
    else appliedChild? rest ctx pass x y v current

end

section Applying
variable [Scalar α] [NoiseSource α] {ctx : Context} {pass : Window} {baked : BakedBrush} {x y : Int}

theorem appliedLayers?_eq {brushes : List (Brush α)} {bs : List BakedBrush}
    (h : List.Forall₂ (fun b c => ∀ v, b.applied? ctx pass x y v = (·.applyTo v) <$> c x y) brushes bs)
    (done : Stroke) (v : Value) : appliedLayers? brushes ctx pass x y (done.applyTo v) =
      (·.applyTo v) <$> strokes? bs x y done := by
  induction h generalizing done with
  | nil => rfl
  | @cons b c _ _ hbc _ ih =>
    rw [appliedLayers?, strokes?, hbc]
    cases c x y with
    | error e => rfl
    | ok s =>
      rw [ok_bind, ← ih, Stroke.applyTo_andThen]
      rfl

theorem appliedChild?_eq {children : List (α × Brush α)} {bs : List (α × BakedBrush)} {u : α}
    (h : List.Forall₂ (fun c d => d.1 = c.1 ∧
      ∀ v, c.2.applied? ctx pass x y v = (·.applyTo v) <$> d.2 x y) children bs) (v : Value) :
    appliedChild? children ctx pass x y u v = (·.applyTo v) <$>
      (match choose u bs with
        | some b => b x y
        | none => .ok .keep) := by
  induction h with
  | nil => rfl
  | @cons c d rest _ hcd hrest ih =>
    rw [appliedChild?]
    cases hrest with
    | nil => simp [choose, hcd.2]
    | cons hnext hlater =>
      simp only [choose, hcd.1, List.isEmpty_cons, Bool.or_false]
      split_ifs with hlt
      · exact hcd.2 v
      · exact ih

/-- A brush that was made ready does to a cell what it does when it is handed the cell's value. -/
theorem applied?_eq {b : Brush α} (h : b.bake ctx pass = .ok baked) (v : Value) :
    b.applied? ctx pass x y v = (·.applyTo v) <$> baked x y := by
  induction b generalizing baked v with
  | fill w =>
    obtain rfl := Except.ok.inj h
    rfl
  | ignore =>
    obtain rfl := Except.ok.inj h
    rfl
  | unspecified => cases h
  | layers brushes ih =>
    obtain ⟨bs, hbs, rfl⟩ := bake_layers_eq_ok.mp h
    refine appliedLayers?_eq (((List.forall₂_and_left _ _).mpr ⟨ih, hbs⟩).imp ?_) .keep v
    rintro b c ⟨hb, hbake⟩ w
    exact hb hbake w
  | selector s children ih =>
    obtain ⟨sample, hsample, bs, hbs, rfl⟩ := bake_selector_eq_ok.mp h
    have hchildren := ((List.forall₂_and_left _ _).mpr ⟨ih, hbs⟩).imp fun c d hcd =>
      (⟨hcd.2.1, fun w => hcd.1 hcd.2.2 w⟩ : d.1 = c.1 ∧
        ∀ w, c.2.applied? ctx pass x y w = (·.applyTo w) <$> d.2 x y)
    rw [applied?, Sampler.sample?, hsample, ok_bind, chosen?]
    cases sample x y with
    | error e => rfl
    | ok u => exact appliedChild?_eq hchildren v

/-- A brush keeps a cell, or it paints one of the values at its leaves, whatever the cell holds. -/
theorem keeps_or_paints {b : Brush α} {s : Stroke} (h : b.bake ctx pass = .ok baked)
    (hs : baked x y = .ok s) : (∀ v, b.applied? ctx pass x y v = .ok v) ∨
      ∃ w ∈ b.fills, ∀ v, b.applied? ctx pass x y v = .ok w := by
  have happly (v : Value) : b.applied? ctx pass x y v = .ok (s.applyTo v) := by
    rw [applied?_eq h, hs]
    rfl
  cases s with
  | keep => exact Or.inl happly
  | paint w => exact Or.inr ⟨w, mem_fills_of_bake h hs, happly⟩

/-- Samplers that give a number at a cell give a stroke there. -/
theorem Definite.exists_stroke {b : Brush α} (hb : b.Definite)
    (h : ∀ s ∈ b.samplers, ∃ v, s.sample? ctx pass x y = .ok v) :
    ∃ baked s, b.bake ctx pass = .ok baked ∧ baked x y = .ok s := by
  have hsamplers : ∀ s ∈ b.samplers, ∃ sample, s.bake ctx pass = .ok sample ∧
      ∀ u v, u = x ∧ v = y → ∃ w, sample u v = .ok w := by
    intro s hs
    obtain ⟨w, hw⟩ := h s hs
    obtain ⟨sample, hsample, hw⟩ := bind_eq_ok.mp hw
    refine ⟨sample, hsample, ?_⟩
    rintro u v ⟨rfl, rfl⟩
    exact ⟨w, hw⟩
  obtain ⟨baked, hbaked, hcell⟩ := hb.exists_bake hsamplers
  obtain ⟨s, hs⟩ := hcell x y ⟨rfl, rfl⟩
  exact ⟨baked, s, hbaked, hs⟩

end Applying

/-- A brush rewritten at any of its nodes: layers within layers are put in their place, and layers
that keep every cell are left out. -/
inductive Flattens : Brush α → Brush α → Prop where
  | refl (b : Brush α) : Flattens b b
  | trans {b c d : Brush α} (hbc : Flattens b c) (hcd : Flattens c d) : Flattens b d
  | splice (before inner after : List (Brush α)) :
      Flattens (layers (before ++ layers inner :: after)) (layers (before ++ (inner ++ after)))
  | drop (before after : List (Brush α)) :
      Flattens (layers (before ++ ignore :: after)) (layers (before ++ after))
  | layer {b c : Brush α} (before after : List (Brush α)) (h : Flattens b c) :
      Flattens (layers (before ++ b :: after)) (layers (before ++ c :: after))
  | child {b c : Brush α} (s : Sampler α) (before after : List (α × Brush α)) (t : α)
      (h : Flattens b c) :
      Flattens (selector s (before ++ (t, b) :: after)) (selector s (before ++ (t, c) :: after))

section Flattening
variable {bs cs inner : List BakedBrush} {x y : Int}

theorem strokes?_splice :
    strokes? (bs ++ (fun x y => strokes? inner x y .keep) :: cs) x y .keep =
      strokes? (bs ++ (inner ++ cs)) x y .keep := by
  rw [strokes?_append, strokes?_append]
  refine bind_congr fun done => ?_
  rw [strokes?_append, strokes?, @strokes?_eq inner x y done, bind_map_left]

theorem strokes?_drop :
    strokes? (bs ++ (fun _ _ => .ok .keep) :: cs) x y .keep = strokes? (bs ++ cs) x y .keep := by
  rw [strokes?_append, strokes?_append]
  exact bind_congr fun done => rfl

variable [Scalar α] [NoiseSource α]

theorem bake_layers (brushes : List (Brush α)) (ctx : Context) (pass : Window) :
    (layers brushes).bake ctx pass = (fun bs x y => strokes? bs x y .keep) <$>
      brushes.mapM fun b => b.bake ctx pass := by
  rw [bake, bakeAll_eq_mapM]
  rfl

/-- Flattened brushes are made ready with the same result, be it a brush or a failure. -/
theorem Flattens.bake_eq {b c : Brush α} (h : Flattens b c) (ctx : Context) (pass : Window) :
    c.bake ctx pass = b.bake ctx pass := by
  induction h with
  | refl b => rfl
  | trans _ _ hbc hcd => exact hcd.trans hbc
  | splice before inner after =>
    simp only [bake_layers, List.mapM_append, List.mapM_cons, map_bind, bind_map_left, bind_assoc,
      pure_bind, map_pure, strokes?_splice]
  | drop before after =>
    have hkeep : (ignore : Brush α).bake ctx pass = pure fun _ _ => .ok .keep := rfl
    simp only [bake_layers, List.mapM_append, List.mapM_cons, map_bind, bind_assoc, hkeep,
      pure_bind, map_pure, strokes?_drop]
  | layer before after _ ih =>
    simp only [bake_layers, List.mapM_append, List.mapM_cons, ih]
  | child s before after t _ ih =>
    simp only [bake, bakeChildren_eq_mapM, List.mapM_append, List.mapM_cons, ih]

end Flattening

end Brush
end TileWorld
