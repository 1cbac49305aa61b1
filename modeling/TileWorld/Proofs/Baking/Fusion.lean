import TileWorld.Proofs.Baking.Strokes
import TileWorld.Proofs.Grid.Writes

/-! One sweep of layers in place of a sweep for each of them. Brush after brush leaves at every cell
what all of them as layers leave there in one pass; only the counts of writes tell the two apart. -/
namespace TileWorld

namespace Stroke

/-- How often a stroke writes its cell. -/
def writes : Stroke → Nat
  | keep => 0
  | paint _ => 1

theorem writes_andThen (s t : Stroke) : (s.andThen t).writes = min 1 (s.writes + t.writes) := by
  cases s <;> cases t <;> rfl

/-- The value that a stroke paints, if it paints one. -/
def painted? : Stroke → Option Value
  | keep => none
  | paint v => some v

/-- A stroke that paints nothing but what cells of a type can hold. -/
def Suits (cellType : CellType) (s : Stroke) : Prop :=
  ∀ v, s = paint v → ∃ u, cellType.cast? v = .ok u

end Stroke

namespace Grid

/-- A count of writes after some more, which stops at its limit. -/
def raised (writes n : Nat) : Nat := if writes = 0 then n else min (n + writes) maxWrites

theorem raised_raised (j k n : Nat) : raised k (raised j n) = raised (j + k) n := by
  unfold raised
  split_ifs <;> omega

/-- A cell holds what a stroke makes of what it held, and was written a number of times for it. -/
structure Struck (s : Stroke) (writes : Nat) (g g' : Grid) (x y : Int) : Prop where
  cell : match s with
    | .keep => g'.cell? x y = g.cell? x y
    | .paint v => ∃ u, g.cellType.cast? v = .ok u ∧ g'.cell? x y = some u
  writes : g'.writes? x y = (g.writes? x y).map (raised writes)

theorem Kept.struck {g g' : Grid} {x y : Int} (h : Kept g g' x y) : Struck .keep 0 g g' x y where
  cell := h.1
  writes := by
    have hraised : raised 0 = id := rfl
    rw [hraised, Option.map_id]
    exact h.2

namespace Struck
variable {s t : Stroke} {j k : Nat} {g g' g'' : Grid} {x y : Int}

theorem trans (h : Struck s j g g' x y) (h' : Struck t k g' g'' x y)
    (htype : g'.cellType = g.cellType) : Struck (s.andThen t) (j + k) g g'' x y where
  cell := by
    have hcell := h'.cell
    cases t with
    | keep =>
      have hfirst := h.cell
      cases s with
      | keep => exact hcell.trans hfirst
      | paint v => exact hfirst.imp fun u hu => ⟨hu.1, hcell.trans hu.2⟩
    | paint v =>
      rw [htype] at hcell
      exact hcell
  writes := by
    rw [h'.writes, h.writes, Option.map_map]
    exact congrArg (Option.map · (g.writes? x y)) (funext (raised_raised j k))

/-- The value that a stroke leaves does not depend on how often it was written. -/
theorem cell?_eq (h : Struck s j g g' x y) (h' : Struck s k g g'' x y) :
    g''.cell? x y = g'.cell? x y := by
  have hcell := h.cell
  have hcell' := h'.cell
  cases s with
  | keep => exact hcell'.trans hcell.symm
  | paint v =>
    obtain ⟨u, hu, hcell⟩ := hcell
    obtain ⟨u', hu', hcell'⟩ := hcell'
    obtain rfl : u = u' := Except.ok.inj (hu.symm.trans hu')
    exact hcell'.trans hcell.symm

end Struck

section Rules
variable {f : Rule} {s : Stroke} {g g' : Grid} {x y : Int}

/-- A rule whose stroke suits the grid writes what the stroke paints. -/
theorem written?_eq {current : Value} (hcurrent : g.get? x y = .ok current)
    (hs : f x y current = .ok s) (hsuits : s.Suits g.cellType) :
    g.written? f x y = .ok s.painted? := by
  rw [written?, hcurrent, ok_bind, hs, ok_bind]
  cases s with
  | keep => rfl
  | paint v =>
    obtain ⟨u, hu⟩ := hsuits v rfl
    show (g.cellType.cast? v >>= fun _ => pure (some v)) = _
    rw [hu]
    rfl

theorem Redrawn.struck (h : Redrawn f g g' x y) (hwritten : g.written? f x y = .ok s.painted?) :
    Struck s s.writes g g' x y := by
  unfold Redrawn at h
  rw [hwritten] at h
  cases s with
  | keep => exact Kept.struck h
  | paint v =>
    obtain ⟨u, hu, hcell, hwrites⟩ := h
    exact ⟨⟨u, hu, hcell⟩, hwrites⟩

end Rules
end Grid

namespace Brush
variable {α : Type} [Scalar α] [NoiseSource α] {ctx : Context} {pass : Window} {x y : Int}

/-- The stroke of a brush, made ready for the cells of `pass`, at one of them. -/
def stroke? (b : Brush α) (ctx : Context) (pass : Window) (x y : Int) : Except Fault Stroke := do
  (← b.bake ctx pass) x y

/-- Whether a brush paints a cell rather than hand back what the cell holds. -/
def paints (b : Brush α) (ctx : Context) (pass : Window) (x y : Int) : Bool :=
  match b.stroke? ctx pass x y with
  | .ok (.paint _) => true
  | _ => false

/-- Layers do at a cell what the first does, and then what the others do. -/
theorem stroke?_layers_cons {b : Brush α} {rest : List (Brush α)} {s t : Stroke}
    (hs : b.stroke? ctx pass x y = .ok s) (ht : (layers rest).stroke? ctx pass x y = .ok t) :
    (layers (b :: rest)).stroke? ctx pass x y = .ok (s.andThen t) := by
  obtain ⟨baked, hbaked, hs⟩ := bind_eq_ok.mp hs
  obtain ⟨others, hothers, ht⟩ := bind_eq_ok.mp ht
  obtain ⟨bs, hbs, rfl⟩ := bake_layers_eq_ok.mp hothers
  have hlayers := bake_layers_eq_ok.mpr ⟨baked :: bs, .cons hbaked hbs, rfl⟩
  have ht : strokes? bs x y .keep = .ok t := ht
  rw [stroke?, hlayers, ok_bind]
  show strokes? (baked :: bs) x y .keep = _
  rw [strokes?, hs, ok_bind, strokes?_eq, ht, Stroke.keep_andThen]
  rfl

theorem writes_eq {b : Brush α} {s : Stroke} (hs : b.stroke? ctx pass x y = .ok s) :
    (if b.paints ctx pass x y then 1 else 0) = s.writes := by
  rw [paints, hs]
  cases s <;> rfl

/-- A brush that can be made ready for a sweep, with a stroke for each cell that suits a type. -/
structure Fits (sweep : Context) (cellType : CellType) (b : Brush α) : Prop where
  bakes : ∃ baked, b.bake sweep sweep.toWindow = .ok baked
  strokes : ∀ x y, sweep.contains x y = true →
    ∃ s, b.stroke? sweep sweep.toWindow x y = .ok s ∧ s.Suits cellType

theorem Definite.fits {b : Brush α} (hb : b.Definite) {sweep : Context} {cellType : CellType}
    (hsamplers : ∀ s ∈ b.samplers, ∃ sample, s.bake sweep sweep.toWindow = .ok sample ∧
      ∀ x y, sweep.contains x y = true → ∃ v, sample x y = .ok v)
    (hfills : ∀ v ∈ b.fills, ∃ u, cellType.cast? v = .ok u) : b.Fits sweep cellType := by
  obtain ⟨baked, hbaked, hcells⟩ := hb.exists_bake hsamplers
  refine ⟨⟨baked, hbaked⟩, fun x y hxy => ?_⟩
  obtain ⟨s, hs⟩ := hcells x y hxy
  refine ⟨s, by rw [stroke?, hbaked, ok_bind, hs], fun v hv => hfills v ?_⟩
  exact mem_fills_of_bake hbaked (hs.trans (congrArg Except.ok hv))

end Brush

namespace Context
variable {α : Type} [Scalar α] [NoiseSource α] {sweep : Context} {f : Rule} {g g' : Grid}

/-- Make a brush ready for a sweep, and apply it to all cells of the sweep. -/
def paint? (sweep : Context) (b : Brush α) (g : Grid) : Except Fault Grid := do
  let baked ← b.bake sweep sweep.toWindow
  sweep.update? (fun x y _ => baked x y) g

theorem update?_eq_ok : sweep.update? f g = .ok g' ↔
    g.Holds sweep.toWindow ∧ g.update f sweep.cells = (g', none) := by
  unfold update?
  rw [bind_eq_ok]
  constructor
  · rintro ⟨view, hview, h⟩
    obtain ⟨hholds, rfl⟩ := Grid.view?_eq_ok.mp hview
    rw [Grid.updateIn] at h
    generalize Grid.update f sweep.cells g = run at h ⊢
    obtain ⟨g₁, _ | e⟩ := run
    · exact ⟨hholds, congrArg (·, none) (Except.ok.inj h)⟩
    · cases h
  · rintro ⟨hholds, hrun⟩
    refine ⟨_, Grid.view?_eq_ok.mpr ⟨hholds, rfl⟩, ?_⟩
    rw [Grid.updateIn, hrun]
    rfl

/-- A brush can be applied to a sweep inside a grid when it has a stroke for each cell of it. The
cells of the sweep are struck, and no others. -/
theorem exists_paint? {b : Brush α} (hb : b.Fits sweep g.cellType)
    (hholds : g.Holds sweep.toWindow) : ∃ g', sweep.paint? b g = .ok g' ∧
      g.SameOn (fun x y => ¬sweep.contains x y = true) g' ∧
      ∀ x y, sweep.contains x y = true → ∀ s, b.stroke? sweep sweep.toWindow x y = .ok s →
        Grid.Struck s s.writes g g' x y := by
  obtain ⟨⟨baked, hbaked⟩, hcells⟩ := hb
  have hstroke (x y : Int) : b.stroke? sweep sweep.toWindow x y = baked x y := by
    rw [Brush.stroke?, hbaked, ok_bind]
  have hwritten (x y : Int) (hxy : sweep.contains x y = true) (s : Stroke)
      (hs : baked x y = .ok s) :
      g.written? (fun x y _ => baked x y) x y = .ok s.painted? := by
    obtain ⟨s', hs', hsuits⟩ := hcells x y hxy
    obtain rfl : s' = s := Except.ok.inj (hs'.symm.trans ((hstroke x y).trans hs))
    obtain ⟨current, hcurrent⟩ := Grid.exists_cell?.mpr
      ((Grid.window_contains g x y).mp (hholds.window_contains hxy))
    exact Grid.written?_eq (Grid.get?_eq_ok.mpr hcurrent) hs hsuits
  have hrun : (Grid.update (fun x y _ => baked x y) sweep.cells g).2 = none := by
    refine (Grid.update_fault_eq_none sweep.nodup_cells).mpr fun x y hxy => ?_
    rw [Window.mem_cells] at hxy
    obtain ⟨s, hs, -⟩ := hcells x y hxy
    exact ⟨_, hwritten x y hxy s ((hstroke x y).symm.trans hs)⟩
  refine ⟨(Grid.update (fun x y _ => baked x y) sweep.cells g).1, ?_, ?_, fun x y hxy s hs => ?_⟩
  · rw [paint?, hbaked, ok_bind]
    exact update?_eq_ok.mpr ⟨hholds, Prod.ext rfl hrun⟩
  · exact (Grid.update_sameOn _ sweep.cells g).mono fun x y hxy => by rwa [Window.mem_cells]
  · have hmem : (x, y) ∈ sweep.cells := (Window.mem_cells _ x y).mpr hxy
    exact (Grid.update_redrawn sweep.nodup_cells hrun hmem).struck
      (hwritten x y hxy s ((hstroke x y).symm.trans hs))

/-- Sweeps one after another strike each cell as all brushes in layers do, and write it once for each
brush that paints it. -/
theorem exists_paintAll? {bs : List (Brush α)} (hbs : ∀ b ∈ bs, b.Fits sweep g.cellType)
    (hholds : g.Holds sweep.toWindow) :
    ∃ g', bs.foldlM (fun g b => sweep.paint? b g) g = .ok g' ∧
      g.SameOn (fun x y => ¬sweep.contains x y = true) g' ∧
      ∀ x y, sweep.contains x y = true →
        ∃ s, (Brush.layers bs).stroke? sweep sweep.toWindow x y = .ok s ∧
          s.writes = min 1 (bs.countP (·.paints sweep sweep.toWindow x y)) ∧
          Grid.Struck s (bs.countP (·.paints sweep sweep.toWindow x y)) g g' x y := by
  induction bs generalizing g with
  | nil => exact ⟨g, rfl, .refl _ g, fun x y _ => ⟨.keep, rfl, rfl, Grid.Kept.struck ⟨rfl, rfl⟩⟩⟩
  | cons b rest ih =>
    rw [List.forall_mem_cons] at hbs
    obtain ⟨next, hnext, hkept, hstruck⟩ := exists_paint? hbs.1 hholds
    have hholds' : next.Holds sweep.toWindow := by
      rw [Grid.Holds, hkept.width, hkept.height]
      exact hholds
    obtain ⟨g', hrest, hkept', hcells⟩ := ih (g := next) (hkept.cellType ▸ hbs.2) hholds'
    refine ⟨g', by rw [List.foldlM_cons, hnext, ok_bind, hrest], hkept.trans hkept',
      fun x y hxy => ?_⟩
    obtain ⟨s, hs, -⟩ := hbs.1.strokes x y hxy
    obtain ⟨t, ht, hwrites, hstruck'⟩ := hcells x y hxy
    have hcount : (b :: rest).countP (·.paints sweep sweep.toWindow x y) =
        s.writes + rest.countP (·.paints sweep sweep.toWindow x y) := by
      rw [List.countP_cons, Brush.writes_eq hs, Nat.add_comm]
    refine ⟨s.andThen t, Brush.stroke?_layers_cons hs ht, ?_, ?_⟩
    · rw [hcount, Stroke.writes_andThen, hwrites]
      omega
    · rw [hcount]
      exact (hstruck x y hxy s hs).trans hstruck' hkept.cellType

/-- A sweep for each of some brushes, and one sweep of all of them as layers. On a sweep that lies in
the grid, with samplers that give numbers there and values that the grid can hold, both succeed and
leave the same values. The sweeps one by one write a cell as often as brushes paint it, the sweep of
all at most once, and neither touches a cell elsewhere. -/
theorem sweeps_fuse {bs : List (Brush α)} (hholds : g.Holds sweep.toWindow)
    (hbs : ∀ b ∈ bs, b.Definite)
    (hsamplers : ∀ b ∈ bs, ∀ s ∈ b.samplers, ∃ sample, s.bake sweep sweep.toWindow = .ok sample ∧
      ∀ x y, sweep.contains x y = true → ∃ v, sample x y = .ok v)
    (hfills : ∀ b ∈ bs, ∀ v ∈ b.fills, ∃ u, g.cellType.cast? v = .ok u) :
    ∃ g₁ g₂, bs.foldlM (fun g b => sweep.paint? b g) g = .ok g₁ ∧
      sweep.paint? (.layers bs) g = .ok g₂ ∧
      g₁.AgreeOff (fun _ _ => False) g₂ ∧
      (∀ x y, ¬sweep.contains x y = true → Grid.Kept g g₁ x y ∧ Grid.Kept g g₂ x y) ∧
      ∀ x y, sweep.contains x y = true →
        g₁.writes? x y = (g.writes? x y).map
          (Grid.raised (bs.countP (·.paints sweep sweep.toWindow x y))) ∧
        g₂.writes? x y = (g.writes? x y).map
          (Grid.raised (min 1 (bs.countP (·.paints sweep sweep.toWindow x y)))) := by
  have hlayers : (Brush.layers bs).Fits sweep g.cellType := by
    refine (Brush.Definite.layers hbs).fits (Brush.forall_samplersOf.mpr hsamplers) fun v hv => ?_
    obtain ⟨b, hb, hv⟩ := Brush.mem_fillsOf.mp hv
    exact hfills b hb v hv
  obtain ⟨g₁, hrun, hkept₁, hcells⟩ := exists_paintAll?
    (fun b hb => (hbs b hb).fits (hsamplers b hb) (hfills b hb)) hholds
  obtain ⟨g₂, hfused, hkept₂, hstruck⟩ := exists_paint? hlayers hholds
  refine ⟨g₁, g₂, hrun, hfused, ⟨?_, ?_, ?_, fun x y _ => ?_⟩, fun x y hxy =>
    ⟨hkept₁.kept x y hxy, hkept₂.kept x y hxy⟩, fun x y hxy => ?_⟩
  · rw [hkept₁.cellType, hkept₂.cellType]
  · rw [hkept₁.width, hkept₂.width]
  · rw [hkept₁.height, hkept₂.height]
  · by_cases hxy : sweep.contains x y = true
    · obtain ⟨s, hs, -, hstruck₁⟩ := hcells x y hxy
      exact hstruck₁.cell?_eq (hstruck x y hxy s hs)
    · exact (hkept₂.kept x y hxy).1.trans (hkept₁.kept x y hxy).1.symm
  · obtain ⟨s, hs, hwrites, hstruck₁⟩ := hcells x y hxy
    exact ⟨hstruck₁.writes, hwrites ▸ (hstruck x y hxy s hs).writes⟩

/-- A brush that paints, one that never does, and one that does by what it samples. -/
def coats : List (Brush Float) :=
  [.fill (.int 1), .ignore, .selector (.const 0.75) [(0.5, .ignore), (1.0, .fill (.int 3))]]

theorem sweeps_fuse_sample : ∃ g g₁ g₂ : Grid, Grid.new? 3 2 (.int 0) .uint8 true = .ok g ∧
    coats.foldlM (fun g b => paint? ⟨⟨⟨1, 3⟩, ⟨0, 2⟩⟩, ⟨3, 2, 1⟩⟩ b g) g = .ok g₁ ∧
    paint? ⟨⟨⟨1, 3⟩, ⟨0, 2⟩⟩, ⟨3, 2, 1⟩⟩ (.layers coats) g = .ok g₂ ∧
    g₁.AgreeOff (fun _ _ => False) g₂ ∧ g₁.writes? 2 1 = some 2 ∧ g₂.writes? 2 1 = some 1 := by
  have hnew : ∃ g, Grid.new? 3 2 (.int 0) .uint8 true = .ok g := ⟨_, rfl⟩
  obtain ⟨g, hg⟩ := hnew
  obtain ⟨htype, hwidth, hheight⟩ := Grid.new?_ok hg
  have hholds : g.Holds (⟨⟨⟨1, 3⟩, ⟨0, 2⟩⟩, ⟨3, 2, 1⟩⟩ : Context).toWindow :=
    ⟨by decide, by decide, hwidth.ge, hheight.ge⟩
  have hblank : g.writes? 2 1 = some 0 := by
    obtain ⟨v, hv⟩ := (Grid.exists_cell? (g := g) (x := 2) (y := 1)).mpr (by omega)
    exact Grid.new?_writes? hg hv
  have hdefinite : ∀ b ∈ coats, b.Definite := by
    simp only [coats, List.forall_mem_cons, List.not_mem_nil, false_imp_iff, implies_true, and_true]
    refine ⟨.fill _, .ignore, .selector _ ?_⟩
    simp [Brush.Definite.ignore, Brush.Definite.fill]
  have hsamplers : ∀ b ∈ coats, ∀ s ∈ b.samplers, s = .const 0.75 := by
    simp [coats, Brush.samplers, Brush.childSamplers]
  have hfills : ∀ b ∈ coats, ∀ v ∈ b.fills, v = .int 1 ∨ v = .int 3 := by
    simp [coats, Brush.fills, Brush.childFills]
  obtain ⟨g₁, g₂, hrun, hfused, hsame, -, hwrites⟩ := sweeps_fuse hholds hdefinite
    (fun b hb s hs => hsamplers b hb s hs ▸
      ⟨fun _ _ => .ok 0.75, rfl, fun _ _ _ => ⟨0.75, rfl⟩⟩)
    (fun b hb v hv => htype ▸ (hfills b hb v hv).elim (fun h => h ▸ ⟨.int 1, rfl⟩)
      (fun h => h ▸ ⟨.int 3, rfl⟩))
  have hcount : coats.countP (·.paints ⟨⟨⟨1, 3⟩, ⟨0, 2⟩⟩, ⟨3, 2, 1⟩⟩ ⟨⟨1, 3⟩, ⟨0, 2⟩⟩ 2 1) = 2 := by
    decide +kernel
  obtain ⟨hwrites₁, hwrites₂⟩ := hwrites 2 1 rfl
  rw [hcount, hblank] at hwrites₁ hwrites₂
  exact ⟨g, g₁, g₂, hg, hrun, hfused, hsame, hwrites₁, hwrites₂⟩

end Context
end TileWorld
