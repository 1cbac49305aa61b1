import TileWorld.Proofs.Baking.Evaluation
import TileWorld.Proofs.Baking.Strokes
import TileWorld.Proofs.Region.Roomy

/-! Samplers made by their constructors can be baked and sampled everywhere. No division fails, no
number overflows, and fields and skylines are read at their own positions only. -/
namespace TileWorld.Sampler
open Double (Sizable)

/-- What the constructors see to, and spans that lie in the unit interval. -/
def Sound : Sampler Float → Prop
  | unspecified => False
  | zoom range _ => Scalar.le range.stop range.start = false
  | split _ range _ _ => range.Inside
  | noise scaleX scaleY _ _ => Scalar.le scaleX 0.0 = false ∧ Scalar.le scaleY 0.0 = false
  | _ => True

/-- Samplers that the constructors return, with spans of splits that lie in the unit interval. -/
inductive Built : Sampler Float → Prop where
  | across : Built across
  | down : Built down
  | const (v : Float) : Built (const v)
  | layered {layers : List (Float × Sampler Float)} {s : Sampler Float}
      (hlayers : ∀ l ∈ layers, Built l.2) (h : layered? layers = .ok s) : Built s
  | zoom {range : Span Float} {inner s : Sampler Float} (hinner : Built inner)
      (h : zoom? range inner = .ok s) : Built s
  | fade (d : Direction) {far near : Sampler Float} (hfar : Built far) (hnear : Built near) :
      Built (fade d far near)
  | split (d : Direction) {range : Span Float} {inner outer : Sampler Float} (hrange : range.Inside)
      (hinner : Built inner) (houter : Built outer) : Built (split d range inner outer)
  | graph (d : Direction) {height less more : Sampler Float} (hheight : Built height)
      (hless : Built less) (hmore : Built more) : Built (graph d height less more)
  | noise {scaleX scaleY offset : Float} {kind : NoiseKind} {s : Sampler Float}
      (h : noise? scaleX scaleY offset kind = .ok s) : Built s

theorem Built.sound {s : Sampler Float} (h : s.Built) : s.AllNodes Sound := by
  induction h with
  | across => exact allNodes_across.mpr trivial
  | down => exact allNodes_down.mpr trivial
  | const v => exact allNodes_const.mpr trivial
  | layered hlayers h ih =>
    obtain ⟨-, rfl⟩ := layered?_eq_ok.mp h
    rw [allNodes_layered, List.forall_mem_map]
    exact ⟨trivial, ih⟩
  | zoom hinner h ih =>
    obtain ⟨hrange, rfl⟩ := zoom?_eq_ok.mp h
    exact allNodes_zoom.mpr ⟨hrange, ih⟩
  | fade d hfar hnear ihf ihn => exact allNodes_fade.mpr ⟨trivial, ihf, ihn⟩
  | split d hrange hinner houter ihi iho => exact allNodes_split.mpr ⟨hrange, ihi, iho⟩
  | graph d hheight hless hmore ihh ihl ihm => exact allNodes_graph.mpr ⟨trivial, ihh, ihl, ihm⟩
  | noise h =>
    obtain ⟨hscale, rfl⟩ := noise?_eq_ok.mp h
    exact allNodes_noise.mpr hscale

mutual

/-- How many splits lie one inside the other. -/
def splits : Sampler Float → ℕ
  | layered layers => splitsOf layers
  | zoom _ inner => splits inner
  | fade _ far near => max (splits far) (splits near)
  | split _ _ inner outer => max (splits inner) (splits outer) + 1
  | graph _ height less more => max (splits height) (max (splits less) (splits more))
  | _ => 0

def splitsOf : List (Float × Sampler Float) → ℕ
  | [] => 0
  | (_, s) :: rest => max (splits s) (splitsOf rest)

end

theorem splits_le_splitsOf {layers : List (Float × Sampler Float)} {l : Float × Sampler Float}
    (h : l ∈ layers) : l.2.splits ≤ splitsOf layers := by
  induction layers with
  | nil => simp at h
  | cons l' rest ih =>
    rw [splitsOf]
    rcases List.mem_cons.mp h with rfl | h
    · exact le_max_left _ _
    · exact (ih h).trans (le_max_right _ _)

variable [NoiseSource Float]

mutual

/-- Sampling a cell of the pass that a sampler was baked for reads fields of noise and skylines at
positions that they have, those of the strips of heights included. -/
def IndexesWithin : Sampler Float → Context → Window → ℤ → ℤ → Prop
  | layered layers, ctx, pass, x, y => LayersIndexWithin layers ctx pass x y
  | zoom _ inner, ctx, pass, x, y => IndexesWithin inner ctx pass x y
  | fade _ far near, ctx, pass, x, y =>
    IndexesWithin far ctx pass x y ∧ IndexesWithin near ctx pass x y
  | split d range inner outer, ctx, pass, x, y => ∃ sub, splitContext? ctx d range = .ok sub ∧
    IndexesWithin inner sub pass x y ∧ IndexesWithin outer sub pass x y
  | graph d height less more, ctx, pass, x, y =>
    (∀ u v, (strip ctx.toWindow pass d).contains u v = true →
      IndexesWithin height ctx (strip ctx.toWindow pass d) u v) ∧
    (∃ baked heights, height.bake ctx (strip ctx.toWindow pass d) = .ok baked ∧
      skyline? baked (strip ctx.toWindow pass d) d = .ok heights ∧
      (d.isVertical = true → 0 ≤ x - pass.columns.start ∧ x - pass.columns.start < heights.size) ∧
      (d.isVertical = false → 0 ≤ y - pass.rows.start ∧ y - pass.rows.start < heights.size)) ∧
    IndexesWithin less ctx pass x y ∧ IndexesWithin more ctx pass x y
  | noise scaleX scaleY offset kind, ctx, pass, x, y =>
    ∃ field, noiseOver? ctx.world pass scaleX scaleY offset kind = .ok field ∧ field.Full ∧
      0 ≤ x - pass.columns.start ∧ x - pass.columns.start < field.width ∧
      0 ≤ y - pass.rows.start ∧ y - pass.rows.start < field.height
  | _, _, _, _, _ => True

def LayersIndexWithin : List (Float × Sampler Float) → Context → Window → ℤ → ℤ → Prop
  | [], _, _, _, _ => True
  | (_, s) :: rest, ctx, pass, x, y =>
    IndexesWithin s ctx pass x y ∧ LayersIndexWithin rest ctx pass x y

end

theorem layersIndexWithin_iff {layers : List (Float × Sampler Float)} {ctx : Context}
    {pass : Window} {x y : ℤ} : LayersIndexWithin layers ctx pass x y ↔
      ∀ l ∈ layers, l.2.IndexesWithin ctx pass x y := by
  induction layers with
  | nil => simp [LayersIndexWithin]
  | cons l rest ih => rw [LayersIndexWithin, List.forall_mem_cons, ih]

/-- A sampler that can be baked, and then sampled at every cell of its pass. -/
def Serves (s : Sampler Float) (ctx : Context) (pass : Window) : Prop :=
  (∃ baked, s.bake ctx pass = .ok baked ∧
    ∀ x y, pass.contains x y = true → ∃ v, baked x y = .ok v) ∧
  ∀ x y, pass.contains x y = true → s.IndexesWithin ctx pass x y

section Nodes
variable {ctx : Context} {pass : Window} {n : ℕ}

omit [NoiseSource Float] in
theorem exists_ramp? {i : Interval} (h : i.Walked) :
    ∃ f : ℤ → Except Fault Float, ramp? i = .ok f ∧
      ∀ m, i.contains m = true → ∃ v, f m = .ok v := by
  obtain ⟨-, hextent, hcells⟩ := h.sizable
  refine ⟨_, by rw [ramp?, hextent.ofInt?, ok_bind, pure_eq_ok], fun m hm => ?_⟩
  obtain ⟨hlow, hhigh⟩ := (Interval.contains_iff i m).mp hm
  have hcount : i.extent = i.stop - i.start := rfl
  have hcell : Sizable (m - i.start) := by
    have hk := hcells (m - i.start).toNat (by unfold Interval.count; omega)
    rwa [Int.toNat_of_nonneg (by omega)] at hk
  have hzero := hextent.same_zero (by omega)
  refine ⟨Float.ofInt (m - i.start) / Float.ofInt i.extent, ?_⟩
  rw [hcell.ofInt?, ok_bind, Scalar.divide?, hzero]
  rfl

omit [NoiseSource Float] in
theorem strip_walked (hctx : ctx.Roomy n) (hpass : pass.Walked) (d : Direction) :
    (strip ctx.toWindow pass d).Walked := by
  obtain ⟨hcolumns, hrows⟩ := hctx
  have hedge : -2 ^ 251 ≤ edge ctx.toWindow d ∧ edge ctx.toWindow d + 1 ≤ 2 ^ 251 := by
    have hleft := hcolumns.start
    have hright := hcolumns.stop
    have htop := hrows.start
    have hbottom := hrows.stop
    cases d <;> simp only [edge] <;> omega
  have hcell : (⟨edge ctx.toWindow d, edge ctx.toWindow d + 1⟩ : Interval).Walked :=
    ⟨Int.lt_succ _, hedge.1, hedge.2⟩
  unfold strip
  dsimp only
  split_ifs
  · exact ⟨hpass.columns, hcell⟩
  · exact ⟨hcell, hpass.rows⟩

omit [NoiseSource Float] in
theorem exists_splitContext? (hctx : ctx.Roomy (n + 1)) (d : Direction) {range : Span Float}
    (hrange : range.Inside) :
    ∃ sub, splitContext? ctx d range = .ok sub ∧ sub.Roomy n ∧ sub.world = ctx.world := by
  cases d with
  | up => exact hctx.exists_extend? Span.inside_full hrange.flip
  | down => exact hctx.exists_extend? Span.inside_full hrange
  | left => exact hctx.exists_extend? hrange Span.inside_full
  | right => exact hctx.exists_extend? hrange.flip Span.inside_full

omit [NoiseSource Float] in
theorem divide?_of_positive {x : Float} (h : Scalar.le x 0.0 = false) :
    Scalar.divide? 1.0 x = .ok (1.0 / x) :=
  divide?_of_not_same (by rw [Scalar.same, h, Bool.false_and]) 1.0

/-- A field of noise over a pass has the size of the pass. -/
theorem exists_noiseOver? (hnoise : Field.Total Float) {world : World}
    (hworld : Sizable world.width ∧ Sizable world.height) (hpass : pass.Walked)
    {scaleX scaleY : Float} (hx : Scalar.le scaleX 0.0 = false) (hy : Scalar.le scaleY 0.0 = false)
    (offset : Float) (kind : NoiseKind) :
    ∃ field, noiseOver? world pass scaleX scaleY offset kind = .ok field ∧ field.Full ∧
      field.width = pass.columns.count ∧ field.height = pass.rows.count := by
  obtain ⟨hleft, -, hcolumns⟩ := hpass.columns.sizable
  obtain ⟨htop, -, hrows⟩ := hpass.rows.sizable
  have hwidth : 0 < pass.width := Int.sub_pos_of_lt hpass.columns.nonempty
  have hheight : 0 < pass.height := Int.sub_pos_of_lt hpass.rows.nonempty
  obtain ⟨field, hfield, hfull, hw, hh⟩ := Field.exists_noise? hnoise hwidth hheight
    (fun k hk => ⟨_, (hcolumns k hk).ofInt?⟩) (fun k hk => ⟨_, (hrows k hk).ofInt?⟩) kind world.seed
    (Float.ofInt pass.columns.start + offset * Float.ofInt world.width)
    (Float.ofInt pass.rows.start + offset * Float.ofInt world.height) (1.0 / scaleX) (1.0 / scaleY)
  refine ⟨field.map (unitRange Scalar.store), ?_, hfull.map _, hw, hh⟩
  simp only [noiseOver?, hworld.1.ofInt?, hworld.2.ofInt?, hleft.ofInt?, htop.ofInt?,
    divide?_of_positive hx, divide?_of_positive hy, hfield, ok_bind, pure_eq_ok]

end Nodes

/-- Every sound sampler serves every pass that is not empty. The induction is on the tree; it goes
down to strips for heights, and to parts of the context, which have room for one split less. -/
theorem serves_of_sound (hnoise : Field.Total Float) {s : Sampler Float} (hs : s.AllNodes Sound)
    {n : ℕ} (hsplits : s.splits ≤ n) {ctx : Context} (hctx : ctx.Roomy n)
    (hworld : Sizable ctx.world.width ∧ Sizable ctx.world.height) {pass : Window}
    (hpass : pass.Walked) : s.Serves ctx pass := by
  induction s generalizing n ctx pass with
  | across => exact ⟨EvaluatesOn.across (exists_ramp? hpass.columns), fun _ _ _ => trivial⟩
  | down => exact ⟨EvaluatesOn.down (exists_ramp? hpass.rows), fun _ _ _ => trivial⟩
  | unspecified => exact hs.root.elim
  | const v => exact ⟨EvaluatesOn.const v ctx pass, fun _ _ _ => trivial⟩
  | layered layers ih =>
    have hall := (allNodes_layered.mp hs).2
    have hlayer (l) (hl : l ∈ layers) : l.2.Serves ctx pass :=
      ih l hl (hall l hl) ((splits_le_splitsOf hl).trans hsplits) hctx hworld hpass
    refine ⟨EvaluatesOn.layered fun l hl => (hlayer l hl).1, fun x y hxy => ?_⟩
    exact layersIndexWithin_iff.mpr fun l hl => (hlayer l hl).2 x y hxy
  | zoom range inner ih =>
    obtain ⟨hrange, hinner⟩ := allNodes_zoom.mp hs
    obtain ⟨hevaluates, hindexes⟩ := ih hinner hsplits hctx hworld hpass
    exact ⟨EvaluatesOn.zoom hevaluates (Double.same_zero_sub hrange), hindexes⟩
  | fade d far near ihf ihn =>
    obtain ⟨-, hfar, hnear⟩ := allNodes_fade.mp hs
    obtain ⟨hfarSplits, hnearSplits⟩ := max_le_iff.mp hsplits
    obtain ⟨hfar, hfarIndexes⟩ := ihf hfar hfarSplits hctx hworld hpass
    obtain ⟨hnear, hnearIndexes⟩ := ihn hnear hnearSplits hctx hworld hpass
    exact ⟨EvaluatesOn.fade hfar hnear fun _ _ hxy => hctx.exists_toward? d hpass hxy,
      fun x y hxy => ⟨hfarIndexes x y hxy, hnearIndexes x y hxy⟩⟩
  | split d range inner outer ihi iho =>
    obtain ⟨hrange, hinner, houter⟩ := allNodes_split.mp hs
    rw [splits] at hsplits
    obtain ⟨n, rfl⟩ : ∃ m, n = m + 1 := Nat.exists_eq_succ_of_ne_zero (by omega)
    obtain ⟨hinnerSplits, houterSplits⟩ := max_le_iff.mp (Nat.le_of_succ_le_succ hsplits)
    obtain ⟨sub, hsub, hroomy, hsame⟩ := exists_splitContext? hctx d hrange
    rw [← hsame] at hworld
    obtain ⟨hinner, hinnerIndexes⟩ := ihi hinner hinnerSplits hroomy hworld hpass
    obtain ⟨houter, houterIndexes⟩ := iho houter houterSplits hroomy hworld hpass
    exact ⟨EvaluatesOn.split hsub hinner houter fun _ _ hxy => hctx.exists_toward? d hpass hxy,
      fun x y hxy => ⟨sub, hsub, hinnerIndexes x y hxy, houterIndexes x y hxy⟩⟩
  | graph d height less more ihh ihl ihm =>
    obtain ⟨-, hheight, hless, hmore⟩ := allNodes_graph.mp hs
    obtain ⟨hheightSplits, hrest⟩ := max_le_iff.mp hsplits
    obtain ⟨hlessSplits, hmoreSplits⟩ := max_le_iff.mp hrest
    have hstrip := strip_walked hctx hpass d
    obtain ⟨hheight, hheightIndexes⟩ := ihh hheight hheightSplits hctx hworld hstrip
    obtain ⟨hless, hlessIndexes⟩ := ihl hless hlessSplits hctx hworld hpass
    obtain ⟨hmore, hmoreIndexes⟩ := ihm hmore hmoreSplits hctx hworld hpass
    obtain ⟨height', hheight', hheightCells⟩ := id hheight
    obtain ⟨heights, hheights, hsize⟩ := exists_skyline? hstrip.isEmpty_eq_false hheightCells d
    have hplace (x y : ℤ) (hxy : pass.contains x y = true) :
        (d.isVertical = true → 0 ≤ x - pass.columns.start ∧ x - pass.columns.start < heights.size) ∧
        (d.isVertical = false → 0 ≤ y - pass.rows.start ∧ y - pass.rows.start < heights.size) := by
      have hcell := (Window.contains_iff pass x y).mp hxy
      rw [hsize]
      cases d <;> simp [strip, Direction.isVertical, Interval.count, Interval.extent] <;> omega
    exact ⟨EvaluatesOn.graph hpass.isEmpty_eq_false hheight hless hmore
      fun _ _ hxy => hctx.exists_toward? d hpass hxy,
      fun x y hxy => ⟨hheightIndexes, ⟨height', heights, hheight', hheights, hplace x y hxy⟩,
        hlessIndexes x y hxy, hmoreIndexes x y hxy⟩⟩
  | noise scaleX scaleY offset kind =>
    obtain ⟨hx, hy⟩ := hs.root
    have hover := exists_noiseOver? hnoise hworld hpass hx hy offset kind
    refine ⟨EvaluatesOn.noise hover, fun x y hxy => ?_⟩
    obtain ⟨field, hfield, hfull, hwidth, hheight⟩ := hover
    have hcell := (Window.contains_iff pass x y).mp hxy
    unfold Interval.count Interval.extent at hwidth hheight
    exact ⟨field, hfield, hfull, by omega, by omega, by omega, by omega⟩

/-- A context and a world of at most 53 digits, with room for splits one inside the other. The
extent of a context of more than 2 ^ 53 columns or rows is rounded, so that each split may move its
ends by a cell: more than 2 ^ 190 of them could leave no room. -/
structure Fits (s : Sampler Float) (ctx : Context) : Prop where
  window : ctx.Small
  world : |ctx.world.width| < 2 ^ 53 ∧ |ctx.world.height| < 2 ^ 53
  splits : (|ctx.columns.extent| ≤ 2 ^ 53 ∧ |ctx.rows.extent| ≤ 2 ^ 53) ∨ s.splits ≤ 2 ^ 190

theorem Built.serves (hnoise : Field.Total Float) {s : Sampler Float} (hs : s.Built) {ctx : Context}
    (hctx : s.Fits ctx) {pass : Window} (hpass : pass.Walked) : s.Serves ctx pass := by
  have hsizable {n : ℤ} (hn : |n| < 2 ^ 53) : Sizable n := hn.le.trans (by norm_num)
  have hroomy : ctx.Roomy s.splits :=
    ⟨hctx.window.columns.roomy (hctx.splits.imp_left And.left),
      hctx.window.rows.roomy (hctx.splits.imp_left And.right)⟩
  exact serves_of_sound hnoise hs.sound le_rfl hroomy
    ⟨hsizable hctx.world.1, hsizable hctx.world.2⟩ hpass

/-- A sampler that the constructors return, placed in any context and baked for any pass that is not
empty, fails neither then nor at any cell of the pass, and reads noise and skylines at their own
positions. The bound on splits one inside the other concerns contexts of more than 2 ^ 53 columns or
rows alone: their extents are rounded, so each such split may move an end out by a cell. -/
theorem built_serves (hnoise : Field.Total Float) {s : Sampler Float} (hs : s.Built) {ctx : Context}
    {pass : Window} (hctx : ctx.Small) (hpass : pass.Small) (hnonempty : pass.isEmpty = false)
    (hworld : |ctx.world.width| < 2 ^ 53 ∧ |ctx.world.height| < 2 ^ 53)
    (hwide : (|ctx.columns.extent| ≤ 2 ^ 53 ∧ |ctx.rows.extent| ≤ 2 ^ 53) ∨ s.splits ≤ 2 ^ 190) :
    (∃ baked, s.bake ctx pass = .ok baked ∧
      ∀ x y, pass.contains x y = true → ∃ v, baked x y = .ok v) ∧
    ∀ x y, pass.contains x y = true → s.IndexesWithin ctx pass x y :=
  hs.serves hnoise ⟨hctx, hworld, hwide⟩ (hpass.walked hnonempty)

omit [NoiseSource Float] in
/-- Gradient noise that is zero where its own lattice has no cell. -/
@[reducible] def everywhere : NoiseSource Float :=
  ⟨Lattice, Lattice.ofSeed, fun l x y => .ok ((Gradient.noise? l x y).toOption.getD 0.0)⟩

omit [NoiseSource Float] in
/-- A skyline of layered noise over a split of a reversed range, in a context without rows. -/
theorem built_serves_sample : ∃ heights : Sampler Float,
    even? [.noise 4.0 4.0 0.5 .fbm] = .ok heights ∧
    @Serves everywhere
      (.graph .up heights (.split .left ⟨0.75, 0.25⟩ .across (.zoom ⟨0.0, 0.5⟩ .down))
        (.fade .down (.const 1.0) .down))
      ⟨⟨⟨-3, 9⟩, ⟨2, 2⟩⟩, ⟨12, 8, 5⟩⟩ ⟨⟨0, 4⟩, ⟨-1, 3⟩⟩ := by
  have hnoise : noise? (4.0 : Float) 4.0 0.5 .fbm = .ok (.noise 4.0 4.0 0.5 .fbm) :=
    if_neg (by decide)
  have hzoom : zoom? ⟨(0.0 : Float), 0.5⟩ .down = .ok (.zoom ⟨0.0, 0.5⟩ .down) := if_neg (by decide)
  have heven : ∃ heights : Sampler Float, even? [.noise 4.0 4.0 0.5 .fbm] = .ok heights := by
    unfold even? layered?
    exact ⟨_, if_neg (by decide)⟩
  obtain ⟨heights, heven⟩ := heven
  refine ⟨heights, heven, ?_⟩
  have hheights : Built heights := .layered (by simpa using Built.noise hnoise) heven
  have hsplit : Built (.split .left ⟨0.75, 0.25⟩ .across (.zoom ⟨0.0, 0.5⟩ .down)) :=
    .split .left ⟨by decide, by decide⟩ .across (.zoom .down hzoom)
  have hbuilt := Built.graph .up hheights hsplit (.fade .down (.const 1.0) .down)
  have htotal : @Field.Total Float everywhere := fun _ _ _ => ⟨_, rfl⟩
  refine @built_serves everywhere htotal _ hbuilt _ _ ⟨⟨?_, ?_⟩, ?_, ?_⟩ ⟨⟨?_, ?_⟩, ?_, ?_⟩ rfl
    ⟨?_, ?_⟩ (Or.inl ⟨?_, ?_⟩) <;> decide

end TileWorld.Sampler

namespace TileWorld.Brush

/-- Brushes that the constructors return, of samplers that they return. -/
inductive Built : Brush Float → Prop where
  | fill (v : Value) : Built (fill v)
  | ignore : Built ignore
  | layers {brushes : List (Brush Float)} (hbrushes : ∀ b ∈ brushes, Built b) :
      Built (layers brushes)
  | selector {s : Sampler Float} {children : List (Float × Brush Float)} {b : Brush Float}
      (hs : s.Built) (hchildren : ∀ c ∈ children, Built c.2) (h : selector? s children = .ok b) :
      Built b

theorem Built.definite {b : Brush Float} (h : b.Built) : b.Definite := by
  induction h with
  | fill v => exact .fill v
  | ignore => exact .ignore
  | layers _ ih => exact .layers ih
  | @selector s _ _ _ _ hb ih =>
    obtain ⟨-, rfl⟩ := selector?_eq_ok.mp hb
    exact .selector s ih

theorem Built.samplers {b : Brush Float} (h : b.Built) : ∀ s ∈ b.samplers, s.Built := by
  induction h with
  | fill v => simp [Brush.samplers]
  | ignore => simp [Brush.samplers]
  | layers _ ih => exact forall_samplersOf.mpr ih
  | selector hs _ hb ih =>
    obtain ⟨-, rfl⟩ := selector?_eq_ok.mp hb
    rw [Brush.samplers, List.forall_mem_cons]
    exact ⟨hs, forall_childSamplers.mpr ih⟩

variable [NoiseSource Float] {ctx : Context} {pass : Window}

/-- Brushes of samplers that can be baked and sampled can be baked, and give each cell a stroke. -/
theorem Built.exists_bake {b : Brush Float} (hb : b.Built)
    (h : ∀ s ∈ b.samplers, s.Built → s.Serves ctx pass) :
    ∃ baked, b.bake ctx pass = .ok baked ∧
      ∀ x y, pass.contains x y = true → ∃ s, baked x y = .ok s :=
  hb.definite.exists_bake fun s hs => (h s hs (hb.samplers s hs)).1

end TileWorld.Brush
