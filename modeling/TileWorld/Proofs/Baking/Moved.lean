import TileWorld.Proofs.Baking.Tree

/-! Samplers and brushes without noise see a cell only relative to their context and pass. Moving
all three over the same distance, into a world of any size and seed, changes nothing. -/
namespace TileWorld

/-- A function of cells, moved over a distance. -/
def moved {β : Type} (dx dy : Int) (f : Int → Int → β) (x y : Int) : β := f (x - dx) (y - dy)

/-- A context moved over a distance, into a world. -/
def Context.moved (c : Context) (dx dy : Int) (world : World) : Context :=
  ⟨c.toWindow.shift dx dy, world⟩

variable {α : Type} [Scalar α]

namespace Interval
variable (i : Interval) (d n : Int)

@[simp] theorem start_shift : (i.shift d).start = i.start + d := rfl

@[simp] theorem stop_shift : (i.shift d).stop = i.stop + d := rfl

@[simp] theorem extent_shift : (i.shift d).extent = i.extent := by
  simp only [extent, start_shift, stop_shift]
  omega

theorem sub_start_shift : n - (i.shift d).start = n - d - i.start := by
  rw [start_shift]
  omega

theorem toList_shift : (i.shift d).toList = i.toList.map (· + d) := by
  have hcount : (i.shift d).count = i.count := by rw [count, extent_shift, count]
  rw [toList, hcount, toList, List.map_map]
  apply List.map_congr_left
  intro k _
  show i.start + d + k = i.start + k + d
  omega

theorem local?_shift : ((i.shift d).local? n : Except Fault α) = i.local? (n - d) := by
  rw [local?, local?, extent_shift, sub_start_shift]

theorem part?_shift (s : Span α) : (i.shift d).part? s = (·.shift d) <$> i.part? s := by
  have hends (a b : Int) : (⟨i.start + d + a, i.start + d + b⟩ : Interval) =
      Interval.shift ⟨i.start + a, i.start + b⟩ d := by
    simp only [shift, Int.add_right_comm]
  simp only [part?, extent_shift, start_shift, hends, map_bind, map_pure]

end Interval

namespace Window
variable (w : Window) (dx dy : Int)

@[simp] theorem columns_shift : (w.shift dx dy).columns = w.columns.shift dx := rfl

@[simp] theorem rows_shift : (w.shift dx dy).rows = w.rows.shift dy := rfl

theorem toward?_shift (d : Direction) (x y : Int) :
    ((w.shift dx dy).toward? d x y : Except Fault α) = w.toward? d (x - dx) (y - dy) := by
  cases d <;> simp only [toward?, columns_shift, rows_shift, Interval.local?_shift]

end Window

theorem Context.extend?_moved (c : Context) (dx dy : Int) (world : World) (across down : Span α) :
    (c.moved dx dy world).extend? across down =
      (·.moved dx dy world) <$> c.extend? across down := by
  simp only [extend?, moved, Window.shift, Interval.part?_shift, map_bind, bind_map_left, map_pure]

theorem Context.toward?_moved (c : Context) (dx dy : Int) (world : World) (d : Direction)
    (x y : Int) : ((c.moved dx dy world).toward? d x y : Except Fault α) =
      c.toward? d (x - dx) (y - dy) := c.toWindow.toward?_shift dx dy d x y

namespace Sampler

theorem ramp?_shift (i : Interval) (d : Int) :
    (ramp? (i.shift d) : Except Fault (Int → Except Fault α)) =
      (fun f n => f (n - d)) <$> ramp? i := by
  simp only [ramp?, Interval.extent_shift, Interval.sub_start_shift, map_bind, map_pure]

theorem splitContext?_moved (ctx : Context) (dx dy : Int) (world : World) (d : Direction)
    (range : Span α) : splitContext? (ctx.moved dx dy world) d range =
      (·.moved dx dy world) <$> splitContext? ctx d range := by
  cases d
  · exact Context.extend?_moved ctx dx dy world Span.full range.flip
  · exact Context.extend?_moved ctx dx dy world Span.full range
  · exact Context.extend?_moved ctx dx dy world range Span.full
  · exact Context.extend?_moved ctx dx dy world range.flip Span.full

theorem strip_shift (ctx pass : Window) (dx dy : Int) (d : Direction) :
    strip (ctx.shift dx dy) (pass.shift dx dy) d = (strip ctx pass d).shift dx dy := by
  cases d <;>
    simp only [strip, edge, Direction.isVertical, Window.shift, Interval.shift, Window.mk.injEq,
      Interval.mk.injEq, if_true, Bool.false_eq_true, if_false, true_and, and_true] <;> omega

/-- A node that is not noise. -/
def Quiet (n : Sampler α) : Prop := ∀ scaleX scaleY offset kind, n ≠ noise scaleX scaleY offset kind

omit [Scalar α] in
theorem not_quiet_noise (scaleX scaleY offset : α) (kind : NoiseKind) :
    ¬Quiet (noise scaleX scaleY offset kind) := fun h => h scaleX scaleY offset kind rfl

omit [Scalar α] in
theorem skyline?_moved (s : BakedSampler α) (w : Window) (dx dy : Int) (d : Direction) :
    skyline? (moved dx dy s) (w.shift dx dy) d = skyline? s w d := by
  cases d <;>
    simp [skyline?, Direction.isVertical, Window.shift, Interval.toList_shift, List.mapM_map,
      moved, Function.comp_def]

theorem weighted?_moved (layers : List (α × BakedSampler α)) (dx dy x y : Int) (total : α) :
    weighted? (layers.map fun l => (l.1, moved dx dy l.2)) x y total =
      weighted? layers (x - dx) (y - dy) total := by
  apply weighted?_congr
  rw [List.forall₂_map_left_iff, List.forall₂_same]
  exact fun l _ => ⟨rfl, rfl⟩

theorem parted?_moved (ctx : Context) (pass : Window) (dx dy : Int) (world : World) (d : Direction)
    (heights : Array α) (less more : BakedSampler α) :
    parted? (ctx.moved dx dy world) (pass.shift dx dy) d heights (moved dx dy less)
      (moved dx dy more) = moved dx dy (parted? ctx pass d heights less more) := by
  funext x y
  simp only [parted?, moved, Context.toward?_moved, Window.columns_shift, Window.rows_shift,
    Interval.sub_start_shift]

variable [NoiseSource α]

/-- Moving a context and a pass moves what is baked in them. -/
theorem bake_moved {s : Sampler α} (h : s.AllNodes Quiet) (ctx : Context) (pass : Window)
    (dx dy : Int) (world : World) : s.bake (ctx.moved dx dy world) (pass.shift dx dy) =
      moved dx dy <$> s.bake ctx pass := by
  induction s generalizing ctx pass with
  | across =>
    have hramp : ramp? (pass.shift dx dy).columns = _ := ramp?_shift (α := α) pass.columns dx
    simp only [bake, hramp, bind_map_left, map_bind, map_pure]
    rfl
  | down =>
    have hramp : ramp? (pass.shift dx dy).rows = _ := ramp?_shift (α := α) pass.rows dy
    simp only [bake, hramp, bind_map_left, map_bind, map_pure]
    rfl
  | unspecified => rfl
  | const v => rfl
  | layered layers ih =>
    have hall := (allNodes_layered.mp h).2
    have hlayers : bakeLayers layers (ctx.moved dx dy world) (pass.shift dx dy) =
        (List.map fun l => (l.1, moved dx dy l.2)) <$> bakeLayers layers ctx pass := by
      rw [bakeLayers_eq_mapM, bakeLayers_eq_mapM]
      apply mapM_eq_map
      intro l hl
      rw [ih l hl (hall l hl), Functor.map_map, Functor.map_map]
    simp only [bake, hlayers, weighted?_moved, bind_map_left, map_bind, map_pure]
    rfl
  | zoom range inner ih =>
    have hinner := ih (allNodes_zoom.mp h).2 ctx pass
    simp only [bake, hinner, bind_map_left, map_bind, map_pure]
    rfl
  | fade d far near ihf ihn =>
    have hall := (allNodes_fade.mp h).2
    have hfar := ihf hall.1 ctx pass
    have hnear := ihn hall.2 ctx pass
    simp only [bake, hfar, hnear, bind_map_left, map_bind, map_pure, Context.toward?_moved]
    rfl
  | split d range inner outer ihi iho =>
    have hall := (allNodes_split.mp h).2
    have hinner (sub : Context) := ihi hall.1 sub pass
    have houter (sub : Context) := iho hall.2 sub pass
    simp only [bake, splitContext?_moved, hinner, houter, bind_map_left, map_bind, map_pure,
      Context.toward?_moved]
    rfl
  | graph d height less more ihh ihl ihm =>
    have hall := (allNodes_graph.mp h).2
    have hstrip : strip (ctx.moved dx dy world).toWindow (pass.shift dx dy) d =
        (strip ctx.toWindow pass d).shift dx dy := strip_shift ctx.toWindow pass dx dy d
    have hheight := ihh hall.1 ctx (strip ctx.toWindow pass d)
    have hless := ihl hall.2.1 ctx pass
    have hmore := ihm hall.2.2 ctx pass
    simp only [bake, hstrip, hheight, hless, hmore, skyline?_moved, parted?_moved, bind_map_left,
      map_bind, map_pure]
  | noise scaleX scaleY offset kind => exact absurd h.root (not_quiet_noise _ _ _ _)

end Sampler

namespace Brush

theorem strokes?_moved (brushes : List BakedBrush) (dx dy x y : Int) (done : Stroke) :
    strokes? (brushes.map (moved dx dy)) x y done = strokes? brushes (x - dx) (y - dy) done := by
  apply strokes?_congr
  rw [List.forall₂_map_left_iff, List.forall₂_same]
  exact fun b _ => rfl

theorem chosen?_moved (sample : BakedSampler α) (children : List (α × BakedBrush)) (dx dy : Int) :
    chosen? (moved dx dy sample) (children.map fun c => (c.1, moved dx dy c.2)) =
      moved dx dy (chosen? sample children) := by
  funext x y
  have hsample : moved dx dy sample x y = sample (x - dx) (y - dy) := rfl
  refine chosen?_congr hsample ?_
  rw [List.forall₂_map_left_iff, List.forall₂_same]
  exact fun c _ => ⟨rfl, rfl⟩

variable [NoiseSource α]

theorem bake_moved {b : Brush α} (h : b.AllNodes Sampler.Quiet) (ctx : Context) (pass : Window)
    (dx dy : Int) (world : World) : b.bake (ctx.moved dx dy world) (pass.shift dx dy) =
      moved dx dy <$> b.bake ctx pass := by
  induction b with
  | fill v => rfl
  | ignore => rfl
  | unspecified => rfl
  | layers brushes ih =>
    have hall := allNodes_layers.mp h
    have hbrushes : bakeAll brushes (ctx.moved dx dy world) (pass.shift dx dy) =
        List.map (moved dx dy) <$> bakeAll brushes ctx pass := by
      rw [bakeAll_eq_mapM, bakeAll_eq_mapM]
      apply mapM_eq_map
      intro b hb
      exact ih b hb (hall b hb)
    simp only [bake, hbrushes, strokes?_moved, bind_map_left, map_bind, map_pure]
    rfl
  | selector s children ih =>
    have hall := allNodes_selector.mp h
    have hsampler := Sampler.bake_moved hall.1 ctx pass dx dy world
    have hchildren : bakeChildren children (ctx.moved dx dy world) (pass.shift dx dy) =
        (List.map fun c => (c.1, moved dx dy c.2)) <$> bakeChildren children ctx pass := by
      rw [bakeChildren_eq_mapM, bakeChildren_eq_mapM]
      apply mapM_eq_map
      intro c hc
      rw [ih c hc (hall.2 c hc), Functor.map_map, Functor.map_map]
    simp only [bake, hsampler, hchildren, chosen?_moved, bind_map_left, map_bind, map_pure]

end Brush

variable [NoiseSource α]

/-- Without noise, a cell moved together with its context and its pass reads as before, or fails as
before, whatever the worlds. -/
theorem readings_relative (ctx : Context) (pass : Window) (world : World) (dx dy x y : Int) :
    (∀ s : Sampler α, s.AllNodes Sampler.Quiet →
      s.sample? (ctx.moved dx dy world) (pass.shift dx dy) (x + dx) (y + dy) =
        s.sample? ctx pass x y) ∧
    ∀ b : Brush α, b.AllNodes Sampler.Quiet → ∀ v : Value,
      b.painted? (ctx.moved dx dy world) (pass.shift dx dy) (x + dx) (y + dy) v =
        b.painted? ctx pass x y v := by
  constructor
  · intro s hs
    simp only [Sampler.sample?, Sampler.bake_moved hs, bind_map_left, moved, Int.add_sub_cancel]
  · intro b hb v
    simp only [Brush.painted?, Brush.bake_moved hb, bind_map_left, moved, Int.add_sub_cancel]

/-- A brush that reads every kind of node but noise. -/
def Brush.sample : Brush Float :=
  .selector (.graph .up (.layered [(0.25, .across), (0.75, .const 1.0)])
      (.split .left ⟨0.0, 0.5⟩ .down (.fade .right (.const 1.0) (.const 0.0)))
      (.zoom ⟨0.0, 2.0⟩ (.const 1.0)))
    [(0.25, .layers [.fill (.int 1)]), (0.5, .ignore), (1.0, .fill (.int 3))]

theorem readings_relative_sample :
    Brush.sample.AllNodes Sampler.Quiet ∧
    Brush.sample.painted? (Context.moved ⟨⟨⟨0, 4⟩, ⟨0, 4⟩⟩, ⟨4, 4, 1⟩⟩ (-7) 9 ⟨30, 20, 5⟩)
      (Window.shift ⟨⟨1, 3⟩, ⟨0, 4⟩⟩ (-7) 9) (1 + -7) (3 + 9) (.int 2) =
      Brush.sample.painted? ⟨⟨⟨0, 4⟩, ⟨0, 4⟩⟩, ⟨4, 4, 1⟩⟩ ⟨⟨1, 3⟩, ⟨0, 4⟩⟩ 1 3 (.int 2) := by
  have hquiet : Brush.sample.AllNodes Sampler.Quiet := by
    simp [Brush.sample, Sampler.Quiet]
  exact ⟨hquiet, (readings_relative _ _ _ _ _ _ _).2 _ hquiet _⟩

end TileWorld
