import TileWorld.Proofs.Baking.Total

/-! Passes over one cell. A cell reads the same in every pass that holds it, as long as no node
tells how far across or down its pass it lies and noise is looked up at one point for all passes. -/
namespace TileWorld
open Double (Sizable Whole)

variable {α : Type} [Scalar α]

/-- Where noise is looked up for a number of an interval: from the start, shifted by a share of the
extent of the world, as far as the number lies from it. -/
def Interval.coordinate? (i : Interval) (extent : ℤ) (offset : α) (n : ℤ) : Except Fault α := do
  let shift := offset * (← Scalar.ofInt? extent)
  pure ((← Scalar.ofInt? i.start) + shift + (← Scalar.ofInt? (n - i.start)))

/-- A number, and two intervals that hold it. -/
structure Overlap where
  first : Interval
  second : Interval
  point : ℤ
  mem_first : first.contains point = true
  mem_second : second.contains point = true

/-- An interval of one number, taken twice. -/
def Overlap.single (n : ℤ) : Overlap where
  first := ⟨n, n + 1⟩
  second := ⟨n, n + 1⟩
  point := n
  mem_first := by simp [Interval.contains_iff]
  mem_second := by simp [Interval.contains_iff]

/-- Noise is looked up at one point for both intervals. -/
def Overlap.Steady (o : Overlap) (extent : ℤ) (offset : α) : Prop :=
  o.first.coordinate? extent offset o.point = o.second.coordinate? extent offset o.point

/-- A cell, and two passes that hold it. -/
structure Sight where
  columns : Overlap
  rows : Overlap

namespace Sight

def first (s : Sight) : Window := ⟨s.columns.first, s.rows.first⟩

def second (s : Sight) : Window := ⟨s.columns.second, s.rows.second⟩

/-- Two results for all cells are the same for the cell. -/
def Same {β : Type} (s : Sight) (f g : ℤ → ℤ → β) : Prop :=
  f s.columns.point s.rows.point = g s.columns.point s.rows.point

theorem mem_first (s : Sight) : s.first.contains s.columns.point s.rows.point = true :=
  Bool.and_eq_true_iff.mpr ⟨s.columns.mem_first, s.rows.mem_first⟩

theorem mem_second (s : Sight) : s.second.contains s.columns.point s.rows.point = true :=
  Bool.and_eq_true_iff.mpr ⟨s.columns.mem_second, s.rows.mem_second⟩

/-- The cell of a strip that lies in line with the cell. -/
def strip (s : Sight) (ctx : Window) (d : Direction) : Sight :=
  if d.isVertical then ⟨s.columns, .single (Sampler.edge ctx d)⟩
  else ⟨.single (Sampler.edge ctx d), s.rows⟩

theorem first_strip (s : Sight) (ctx : Window) (d : Direction) :
    (s.strip ctx d).first = Sampler.strip ctx s.first d := by
  cases d <;> rfl

theorem second_strip (s : Sight) (ctx : Window) (d : Direction) :
    (s.strip ctx d).second = Sampler.strip ctx s.second d := by
  cases d <;> rfl

end Sight

namespace Sampler

/-- A node that does not tell where in the pass a cell lies. -/
def Steady (sight : Sight) (world : World) : Sampler α → Prop
  | across | down => False
  | noise _ _ offset _ =>
    sight.columns.Steady world.width offset ∧ sight.rows.Steady world.height offset
  | _ => True

theorem Steady.strip {sight : Sight} {world : World} {n : Sampler α} (h : n.Steady sight world)
    (ctx : Window) (d : Direction) : n.Steady (sight.strip ctx d) world := by
  cases n with
  | noise scaleX scaleY offset kind =>
    cases d
    · exact ⟨h.1, rfl⟩
    · exact ⟨h.1, rfl⟩
    · exact ⟨rfl, h.2⟩
    · exact ⟨rfl, h.2⟩
  | _ => exact h

variable [NoiseSource α]

/-- Noise at one cell of a pass. -/
def noiseAt? (world : World) (pass : Window) (scaleX scaleY offset : α) (kind : NoiseKind)
    (x y : ℤ) : Except Fault α := do
  let cx ← pass.columns.coordinate? world.width offset x
  let cy ← pass.rows.coordinate? world.height offset y
  let fx ← Scalar.divide? 1.0 scaleX
  let fy ← Scalar.divide? 1.0 scaleY
  let v ← Field.point? kind (NoiseSource.table (α := α) world.seed) (cx * fx) (cy * fy)
  pure (unitRange Scalar.store (Scalar.store v))

theorem noiseAt?_steady {sight : Sight} {world : World} {offset : α}
    (hcolumns : sight.columns.Steady world.width offset)
    (hrows : sight.rows.Steady world.height offset) (scaleX scaleY : α) (kind : NoiseKind) :
    noiseAt? world sight.first scaleX scaleY offset kind sight.columns.point sight.rows.point =
      noiseAt? world sight.second scaleX scaleY offset kind sight.columns.point
        sight.rows.point := by
  have hx : sight.first.columns.coordinate? world.width offset sight.columns.point =
      sight.second.columns.coordinate? world.width offset sight.columns.point := hcolumns
  have hy : sight.first.rows.coordinate? world.height offset sight.rows.point =
      sight.second.rows.coordinate? world.height offset sight.rows.point := hrows
  rw [noiseAt?, noiseAt?, hx, hy]

/-- The field of a pass holds the noise at each of its cells. -/
theorem noiseOver?_reads {world : World} {pass : Window} {scaleX scaleY offset : α}
    {kind : NoiseKind} {field : Field α}
    (h : noiseOver? world pass scaleX scaleY offset kind = .ok field) {x y : ℤ}
    (hxy : pass.contains x y = true) :
    field.get? (x - pass.columns.start) (y - pass.rows.start) =
      noiseAt? world pass scaleX scaleY offset kind x y := by
  obtain ⟨⟨hx, hx'⟩, hy, hy'⟩ := (Window.contains_iff pass x y).mp hxy
  obtain ⟨width, hwidth, h⟩ := bind_eq_ok.mp h
  obtain ⟨left, hleft, h⟩ := bind_eq_ok.mp h
  obtain ⟨height, hheight, h⟩ := bind_eq_ok.mp h
  obtain ⟨top, htop, h⟩ := bind_eq_ok.mp h
  obtain ⟨fx, hfx, h⟩ := bind_eq_ok.mp h
  obtain ⟨fy, hfy, h⟩ := bind_eq_ok.mp h
  obtain ⟨raw, hraw, h⟩ := bind_eq_ok.mp h
  obtain rfl := Except.ok.inj h
  have hcolumns : pass.width = pass.columns.stop - pass.columns.start := rfl
  have hrows : pass.height = pass.rows.stop - pass.rows.start := rfl
  obtain ⟨cx, cy, v, hcx, hcy, hv, hread⟩ := Field.noise?_reads hraw
    (i := x - pass.columns.start) (j := y - pass.rows.start)
    (by omega) (by omega) (by omega) (by omega)
  rw [Field.get?_map, hread]
  simp only [noiseAt?, Interval.coordinate?, hwidth, hheight, hleft, htop, hcx, hcy, hfx, hfy, hv,
    ok_bind, pure_eq_ok]
  rfl

omit [NoiseSource α] in
/-- Skylines of heights that are the same in line with a cell part samplers alike at the cell. -/
theorem skyline?_agree {s s' : BakedSampler α} {sight : Sight} {ctx : Context} {d : Direction}
    (h : (sight.strip ctx.toWindow d).Same s s') :
    Agree (fun heights heights' => ∀ less less' more more' : BakedSampler α,
        sight.Same less less' → sight.Same more more' →
        sight.Same (parted? ctx sight.first d heights less more)
          (parted? ctx sight.second d heights' less' more'))
      (skyline? s (strip ctx.toWindow sight.first d) d)
      (skyline? s' (strip ctx.toWindow sight.second d) d) := by
  intro heights heights' hheights hheights' less less' more more' hless hmore
  have hfirst := parted?_reads hheights sight.mem_first less more
  have hsecond := parted?_reads hheights' sight.mem_second less' more'
  unfold Sight.Same at h hless hmore ⊢
  rw [hfirst, hsecond, hless, hmore]
  unfold edgeHeight? Direction.across
  unfold Sight.strip at h
  split_ifs at h ⊢
  · exact congrArg (· >>= _) h
  · exact congrArg (· >>= _) h

omit [NoiseSource α] in
theorem splitContext?_world {ctx sub : Context} {d : Direction} {range : Span α}
    (h : splitContext? ctx d range = .ok sub) : sub.world = ctx.world := by
  have hextend {across down : Span α} (h : ctx.extend? across down = .ok sub) :
      sub.world = ctx.world := by
    obtain ⟨columns, -, h⟩ := bind_eq_ok.mp h
    obtain ⟨rows, -, h⟩ := bind_eq_ok.mp h
    obtain rfl := Except.ok.inj h
    rfl
  cases d <;> exact hextend h

/-- Samplers that see no more of a pass than the cell are the same for both passes. The induction
goes down to strips for heights, in which the cell in line with the cell is sighted. -/
theorem bake_agree {s : Sampler α} {sight : Sight} {ctx : Context}
    (h : s.AllNodes (Steady sight ctx.world)) :
    Agree sight.Same (s.bake ctx sight.first) (s.bake ctx sight.second) := by
  induction s generalizing sight ctx with
  | across => exact h.root.elim
  | down => exact h.root.elim
  | unspecified => exact .error _ _
  | const v => exact .ok rfl
  | layered layers ih =>
    have hall := (allNodes_layered.mp h).2
    simp only [bake, bakeLayers_eq_mapM]
    refine (Agree.mapM (R := fun b c => b.1 = c.1 ∧ sight.Same b.2 c.2) fun l hl => ?_).bind
      fun bs cs hbc => .ok (weighted?_congr hbc 0.0)
    exact (ih l hl (hall l hl)).map fun f g hfg => ⟨rfl, hfg⟩
  | zoom range inner ih =>
    simp only [bake]
    refine (ih (allNodes_zoom.mp h).2).bind fun f g hfg => .ok ?_
    simp only [Sight.Same] at hfg ⊢
    rw [hfg]
  | fade d far near ihf ihn =>
    obtain ⟨-, hfar, hnear⟩ := allNodes_fade.mp h
    simp only [bake]
    refine (ihf hfar).bind fun f g hfg => (ihn hnear).bind fun f' g' hfg' => .ok ?_
    simp only [Sight.Same] at hfg hfg' ⊢
    rw [hfg, hfg']
  | split d range inner outer ihi iho =>
    obtain ⟨-, hinner, houter⟩ := allNodes_split.mp h
    simp only [bake]
    cases hsub : splitContext? ctx d range with
    | error e => exact .error _ _
    | ok sub =>
      rw [← splitContext?_world hsub] at hinner houter
      refine (ihi hinner).bind fun f g hfg => (iho houter).bind fun f' g' hfg' => .ok ?_
      simp only [Sight.Same] at hfg hfg' ⊢
      rw [hfg, hfg']
  | graph d height less more ihh ihl ihm =>
    obtain ⟨-, hheight, hless, hmore⟩ := allNodes_graph.mp h
    have hheight' := hheight.mono fun n hn => hn.strip ctx.toWindow d
    have hstrip := ihh hheight'
    rw [Sight.first_strip, Sight.second_strip] at hstrip
    simp only [bake]
    refine hstrip.bind fun f g hfg => (skyline?_agree hfg).bind fun heights heights' hparted => ?_
    refine (ihl hless).bind fun l l' hl => (ihm hmore).bind fun m m' hm => .ok ?_
    exact hparted l l' m m' hl hm
  | noise scaleX scaleY offset kind =>
    obtain ⟨hcolumns, hrows⟩ := h.root
    intro f g hf hg
    obtain ⟨field, hfield, hf⟩ := bind_eq_ok.mp hf
    obtain ⟨field', hfield', hg⟩ := bind_eq_ok.mp hg
    obtain rfl := Except.ok.inj hf
    obtain rfl := Except.ok.inj hg
    have hfirst := noiseOver?_reads hfield sight.mem_first
    have hsecond := noiseOver?_reads hfield' sight.mem_second
    exact hfirst.trans ((noiseAt?_steady hcolumns hrows scaleX scaleY kind).trans hsecond.symm)

end Sampler

namespace Brush
variable [NoiseSource α]

theorem bake_agree {b : Brush α} {sight : Sight} {ctx : Context}
    (h : b.AllNodes (Sampler.Steady sight ctx.world)) :
    Agree sight.Same (b.bake ctx sight.first) (b.bake ctx sight.second) := by
  induction b with
  | fill v => exact .ok rfl
  | ignore => exact .ok rfl
  | unspecified => exact .error _ _
  | layers brushes ih =>
    have hall := allNodes_layers.mp h
    simp only [bake, bakeAll_eq_mapM]
    refine (Agree.mapM fun b hb => ih b hb (hall b hb)).bind fun bs cs hbc => .ok ?_
    exact strokes?_congr hbc .keep
  | selector s children ih =>
    obtain ⟨hs, hall⟩ := allNodes_selector.mp h
    simp only [bake, bakeChildren_eq_mapM]
    have hchildren : Agree (List.Forall₂ fun b c => b.1 = c.1 ∧ sight.Same b.2 c.2)
        (children.mapM fun c => (c.1, ·) <$> c.2.bake ctx sight.first)
        (children.mapM fun c => (c.1, ·) <$> c.2.bake ctx sight.second) :=
      .mapM fun c hc => (ih c hc (hall c hc)).map fun f g hfg => ⟨rfl, hfg⟩
    exact (Sampler.bake_agree hs).bind fun f g hfg => hchildren.bind fun bs cs hbc =>
      .ok (chosen?_congr hfg hbc)

end Brush

/-- Shifted by an integer, the start of an interval has at most 53 digits, and so has the way from
it to a number. -/
structure Interval.Counts (i : Interval) (shift n : ℤ) : Prop where
  start : |i.start + shift| ≤ 2 ^ 53
  way : n - i.start ≤ 2 ^ 53

theorem Interval.Counts.abs_way {i : Interval} {shift n : ℤ} (h : i.Counts shift n)
    (hn : i.contains n = true) : |n - i.start| ≤ 2 ^ 53 := by
  obtain ⟨hlow, -⟩ := (Interval.contains_iff i n).mp hn
  rw [abs_of_nonneg (by omega)]
  exact h.way

/-- Where shifts are whole, and neither the shifted starts nor the ways from them are rounded, noise
is looked up at one point. -/
theorem Overlap.steady_of_counts {o : Overlap} {extent shift : ℤ} {offset : Float}
    (hshift : Whole (offset * Float.ofInt extent) shift) (hfirst : o.first.Small)
    (hsecond : o.second.Small) (h : o.first.Counts shift o.point)
    (h' : o.second.Counts shift o.point) : o.Steady extent offset := by
  unfold Steady Interval.coordinate?
  cases hextent : (Scalar.ofInt? extent : Except Fault Float) with
  | error e => rfl
  | ok w =>
    obtain rfl := Double.eq_ofInt_of_ofInt? hextent
    have hsize {n : ℤ} (hn : |n| ≤ 2 ^ 53) : Sizable n := hn.trans (by norm_num)
    have hleft := hsize hfirst.1.le
    have hleft' := hsize hsecond.1.le
    have hway : |o.point - o.first.start| ≤ 2 ^ 53 := h.abs_way o.mem_first
    have hway' : |o.point - o.second.start| ≤ 2 ^ 53 := h'.abs_way o.mem_second
    have hstart := (Whole.ofInt hfirst.1.le).add hshift h.start
    have hstart' := (Whole.ofInt hsecond.1.le).add hshift h'.start
    have hsum := hstart.add_eq_add (.ofInt hway) hstart' (.ofInt hway') (hsize hway).value_ne
      (hsize hway').value_ne (by omega)
    simp only [hleft.ofInt?, hleft'.ofInt?, (hsize hway).ofInt?, (hsize hway').ofInt?, ok_bind,
      pure_eq_ok, hsum]

/-- A cell of two passes. -/
def Sight.of {P Q : Window} {x y : ℤ} (hP : P.contains x y = true) (hQ : Q.contains x y = true) :
    Sight where
  columns := ⟨P.columns, Q.columns, x, (Bool.and_eq_true_iff.mp hP).1,
    (Bool.and_eq_true_iff.mp hQ).1⟩
  rows := ⟨P.rows, Q.rows, y, (Bool.and_eq_true_iff.mp hP).2, (Bool.and_eq_true_iff.mp hQ).2⟩

namespace Sampler

/-- A node that does not tell where in the pass a cell lies, and noise shifted by whole numbers. -/
def Unplaced (world : World) : Sampler Float → Prop
  | across | down => False
  | noise _ _ offset _ => (∃ n, Whole (offset * Float.ofInt world.width) n) ∧
    ∃ n, Whole (offset * Float.ofInt world.height) n
  | _ => True

/-- Such a node, of noise that is looked up for a cell of two passes without rounding. -/
def Absolute (world : World) (P Q : Window) (x y : ℤ) : Sampler Float → Prop
  | across | down => False
  | noise _ _ offset _ =>
    (∃ n, Whole (offset * Float.ofInt world.width) n ∧
        P.columns.Counts n x ∧ Q.columns.Counts n x) ∧
      ∃ n, Whole (offset * Float.ofInt world.height) n ∧ P.rows.Counts n y ∧ Q.rows.Counts n y
  | _ => True

theorem Absolute.steady {world : World} {P Q : Window} {x y : ℤ} (hP : P.Small) (hQ : Q.Small)
    (hPxy : P.contains x y = true) (hQxy : Q.contains x y = true) {n : Sampler Float}
    (h : n.Absolute world P Q x y) : n.Steady (.of hPxy hQxy) world := by
  cases n with
  | noise scaleX scaleY offset kind =>
    obtain ⟨⟨m, hm, hleft, hleft'⟩, n, hn, htop, htop'⟩ := h
    constructor
    · exact Overlap.steady_of_counts hm hP.columns hQ.columns hleft hleft'
    · exact Overlap.steady_of_counts hn hP.rows hQ.rows htop htop'
  | _ => exact h

end Sampler

section Passes
variable [NoiseSource Float]

/-- A cell reads the same in both of two passes that hold it, wherever both can be baked: there are
no coordinates in the tree, and noise is shifted by whole numbers and looked up without rounding,
also in the heights of skylines. What the constructors return can be baked for both. -/
theorem passes_agree (ctx : Context) {P Q : Window} (hP : P.Small) (hQ : Q.Small) {x y : ℤ}
    (hPxy : P.contains x y = true) (hQxy : Q.contains x y = true) :
    (∀ s : Sampler Float, s.AllNodes (Sampler.Absolute ctx.world P Q x y) →
      (∀ f g, s.bake ctx P = .ok f → s.bake ctx Q = .ok g → f x y = g x y) ∧
      (Field.Total Float → s.Built → s.Fits ctx →
        ∃ v, s.sample? ctx P x y = .ok v ∧ s.sample? ctx Q x y = .ok v)) ∧
    ∀ b : Brush Float, b.AllNodes (Sampler.Absolute ctx.world P Q x y) →
      (∀ f g, b.bake ctx P = .ok f → b.bake ctx Q = .ok g → f x y = g x y) ∧
      (Field.Total Float → b.Built → (∀ s ∈ b.samplers, s.Fits ctx) → ∀ v : Value,
        ∃ w, b.painted? ctx P x y v = .ok w ∧ b.painted? ctx Q x y v = .ok w) := by
  have hsteady {n : Sampler Float} (h : n.Absolute ctx.world P Q x y) :=
    h.steady hP hQ hPxy hQxy
  constructor
  · intro s hs
    have hagree := Sampler.bake_agree (hs.mono fun n => hsteady)
    refine ⟨hagree, fun hnoise hbuilt hfits => ?_⟩
    obtain ⟨⟨f, hf, hcells⟩, -⟩ := hbuilt.serves hnoise hfits (hP.walked_of_contains hPxy)
    obtain ⟨⟨g, hg, -⟩, -⟩ := hbuilt.serves hnoise hfits (hQ.walked_of_contains hQxy)
    obtain ⟨v, hv⟩ := hcells x y hPxy
    have hsame : f x y = g x y := hagree f g hf hg
    refine ⟨v, ?_, ?_⟩
    · rw [Sampler.sample?, hf, ok_bind, hv]
    · rw [Sampler.sample?, hg, ok_bind, ← hsame, hv]
  · intro b hb
    have hagree := Brush.bake_agree (fun s hs => (hb s hs).mono fun n => hsteady)
    refine ⟨hagree, fun hnoise hbuilt hfits v => ?_⟩
    obtain ⟨f, hf, hcells⟩ := hbuilt.exists_bake fun s hs hs' =>
      hs'.serves hnoise (hfits s hs) (hP.walked_of_contains hPxy)
    obtain ⟨g, hg, -⟩ := hbuilt.exists_bake fun s hs hs' =>
      hs'.serves hnoise (hfits s hs) (hQ.walked_of_contains hQxy)
    obtain ⟨stroke, hstroke⟩ := hcells x y hPxy
    have hsame : f x y = g x y := hagree f g hf hg
    refine ⟨stroke.applyTo v, ?_, ?_⟩
    · rw [Brush.painted?, hf, ok_bind, hstroke, ok_bind, pure_eq_ok]
    · rw [Brush.painted?, hg, ok_bind, ← hsame, hstroke, ok_bind, pure_eq_ok]

end Passes

/-- Gradient noise over a lattice that is not shuffled. -/
@[reducible] def unshuffled : NoiseSource Float :=
  ⟨Lattice, fun _ => ⟨Array.range 256⟩, Gradient.noise?⟩

/-- Noise that a world of eight columns and rows shifts by 2 ^ 53 of them. -/
def Sampler.farNoise : Sampler Float := .noise 32.0 32.0 1125899906842624.0 .simplex

/-- A skyline that falls along its context. -/
def Sampler.slope : Sampler Float :=
  .graph .up (.fade .right (.const 1.0) (.const 0.0)) (.const 0.0) (.const 1.0)

/-- Without bounds on the shifts, noise for one cell is looked up at 2 ^ 53 + 2 in a pass that
starts there, and at 2 ^ 53 in a pass that starts a column earlier. Without a bound on the context,
a pass that can be baked may be part of one that cannot. -/
theorem passes_differ :
    (Sampler.farNoise.AllNodes (Sampler.Unplaced ⟨8, 8, 1⟩) ∧
      (@Sampler.sample? _ _ unshuffled .farNoise (.ofWorld ⟨8, 8, 1⟩) ⟨⟨2, 3⟩, ⟨0, 1⟩⟩ 2
        0).toOption.map Float.toBits = some 4589567194551025664 ∧
      (@Sampler.sample? _ _ unshuffled .farNoise (.ofWorld ⟨8, 8, 1⟩) ⟨⟨1, 3⟩, ⟨0, 1⟩⟩ 2
        0).toOption.map Float.toBits = some 4591821028031725568) ∧
    Sampler.slope.AllNodes (Sampler.Unplaced ⟨8, 8, 1⟩) ∧
      (Sampler.slope.sample? ⟨⟨⟨1 + 2 ^ 970 - 2 ^ 1024, 2 + 2 ^ 970 - 2 ^ 1024⟩, ⟨0, 8⟩⟩, ⟨8, 8, 1⟩⟩
        ⟨⟨0, 2⟩, ⟨0, 1⟩⟩ 0 0).isOk = false ∧
      (Sampler.slope.sample? ⟨⟨⟨1 + 2 ^ 970 - 2 ^ 1024, 2 + 2 ^ 970 - 2 ^ 1024⟩, ⟨0, 8⟩⟩, ⟨8, 8, 1⟩⟩
        ⟨⟨0, 1⟩, ⟨0, 1⟩⟩ 0 0).isOk = true := by
  have hproduct : Double.value (1125899906842624.0 * Float.ofInt 8) =
      .finite .positive (2 ^ 52) 1 (by norm_num) := rfl
  have hshift := Whole.of_finite (n := 2 ^ 53) hproduct (by norm_num [Double.signed])
  refine ⟨⟨?_, ?_, ?_⟩, ?_, ?_, ?_⟩
  · exact Sampler.allNodes_noise.mpr ⟨⟨_, hshift⟩, _, hshift⟩
  · decide +kernel
  · decide +kernel
  · simp [Sampler.slope, Sampler.Unplaced]
  · decide +kernel
  · decide +kernel

/-- A skyline of noise between two paints. -/
def Brush.banks : Brush Float :=
  .selector (.graph .up (.noise 4.0 4.0 0.5 .fbm) (.fade .down (.const 1.0) (.const 0.0))
    (.const 0.5)) [(0.5, .fill (.int 1)), (1.0, .layers [.fill (.int 2), .ignore])]

/-- Two passes of which neither holds the other, around a context of no rows. -/
theorem passes_agree_sample : ∃ w,
    @Brush.painted? _ _ Sampler.everywhere .banks ⟨⟨⟨-3, 9⟩, ⟨2, 2⟩⟩, ⟨12, 8, 5⟩⟩
      ⟨⟨0, 4⟩, ⟨-1, 3⟩⟩ 2 1 (.int 7) = .ok w ∧
    @Brush.painted? _ _ Sampler.everywhere .banks ⟨⟨⟨-3, 9⟩, ⟨2, 2⟩⟩, ⟨12, 8, 5⟩⟩
      ⟨⟨1, 9⟩, ⟨0, 8⟩⟩ 2 1 (.int 7) = .ok w := by
  have hbuilt : Brush.banks.Built := by
    refine .selector (.graph .up (.noise (if_neg (by decide)))
      (.fade .down (.const 1.0) (.const 0.0)) (.const 0.5)) ?_
      ((if_neg (by decide)).trans (if_pos (by decide)))
    simpa using ⟨Brush.Built.fill _, .layers (by simpa using ⟨.fill _, .ignore⟩)⟩
  have hsix : Double.value (0.5 * Float.ofInt 12) =
      .finite .positive (3 * 2 ^ 51) (-50) (by norm_num) := rfl
  have hfour : Double.value (0.5 * Float.ofInt 8) =
      .finite .positive (2 ^ 52) (-50) (by norm_num) := rfl
  have hcolumns := Whole.of_finite (n := 6) hsix (by norm_num [Double.signed])
  have hrows := Whole.of_finite (n := 4) hfour (by norm_num [Double.signed])
  have hnoise (kind : NoiseKind) : Sampler.Absolute ⟨12, 8, 5⟩ ⟨⟨0, 4⟩, ⟨-1, 3⟩⟩
      ⟨⟨1, 9⟩, ⟨0, 8⟩⟩ 2 1 (.noise 4.0 4.0 0.5 kind) := by
    refine ⟨⟨6, hcolumns, ⟨?_, ?_⟩, ?_, ?_⟩, 4, hrows, ⟨?_, ?_⟩, ?_, ?_⟩ <;> decide
  have habsolute : Brush.banks.AllNodes
      (Sampler.Absolute ⟨12, 8, 5⟩ ⟨⟨0, 4⟩, ⟨-1, 3⟩⟩ ⟨⟨1, 9⟩, ⟨0, 8⟩⟩ 2 1) := by
    simpa [Brush.banks, Sampler.Absolute] using hnoise .fbm
  have hfits (s : Sampler Float) : s.Fits ⟨⟨⟨-3, 9⟩, ⟨2, 2⟩⟩, ⟨12, 8, 5⟩⟩ := by
    refine ⟨⟨⟨?_, ?_⟩, ?_, ?_⟩, ⟨?_, ?_⟩, .inl ⟨?_, ?_⟩⟩ <;> decide
  have htotal : @Field.Total Float Sampler.everywhere := fun _ _ _ => ⟨_, rfl⟩
  have hsmall : Window.Small ⟨⟨0, 4⟩, ⟨-1, 3⟩⟩ ∧ Window.Small ⟨⟨1, 9⟩, ⟨0, 8⟩⟩ := by
    refine ⟨⟨⟨?_, ?_⟩, ?_, ?_⟩, ⟨?_, ?_⟩, ?_, ?_⟩ <;> decide
  have hagree := @passes_agree Sampler.everywhere ⟨⟨⟨-3, 9⟩, ⟨2, 2⟩⟩, ⟨12, 8, 5⟩⟩ _ _ hsmall.1
    hsmall.2 2 1 rfl rfl
  exact (hagree.2 _ habsolute).2 htotal hbuilt (fun s _ => hfits s) _

end TileWorld
