import TileWorld.Brush.Bake
import TileWorld.Proofs.Outcome

/-! Samplers and brushes as trees: induction over their nodes, the nodes that they hold, what their
constructors return, and baking read one child at a time. -/
namespace TileWorld
variable {α : Type}

namespace Sampler

/-- Induction over a sampler, in which the layers of a weighted sum are its members. -/
@[elab_as_elim, induction_eliminator]
theorem induct {motive : Sampler α → Prop} (across : motive across) (down : motive down)
    (unspecified : motive unspecified) (const : ∀ v, motive (const v))
    (layered : ∀ layers, (∀ l ∈ layers, motive l.2) → motive (layered layers))
    (zoom : ∀ range inner, motive inner → motive (zoom range inner))
    (fade : ∀ d far near, motive far → motive near → motive (fade d far near))
    (split : ∀ d range inner outer, motive inner → motive outer →
      motive (split d range inner outer))
    (graph : ∀ d height less more, motive height → motive less → motive more →
      motive (graph d height less more))
    (noise : ∀ scaleX scaleY offset kind, motive (noise scaleX scaleY offset kind))
    (s : Sampler α) : motive s :=
  @Sampler.rec α motive (fun layers => ∀ l ∈ layers, motive l.2) (fun l => motive l.2)
    across down unspecified const layered zoom fade split graph noise (by simp)
    (fun _ _ hl hrest => List.forall_mem_cons.mpr ⟨hl, hrest⟩) (fun _ _ hs => hs) s

mutual

/-- The nodes of a tree, its root first. -/
def nodes : Sampler α → List (Sampler α)
  | layered layers => layered layers :: nodesOf layers
  | zoom range inner => zoom range inner :: nodes inner
  | fade d far near => fade d far near :: (nodes far ++ nodes near)
  | split d range inner outer => split d range inner outer :: (nodes inner ++ nodes outer)
  | graph d height less more =>
    graph d height less more :: (nodes height ++ nodes less ++ nodes more)
  | s => [s]

def nodesOf : List (α × Sampler α) → List (Sampler α)
  | [] => []
  | (_, s) :: rest => nodes s ++ nodesOf rest

end

/-- A tree whose nodes all have a property. -/
def AllNodes (p : Sampler α → Prop) (s : Sampler α) : Prop := ∀ n ∈ s.nodes, p n

section AllNodes
variable {p : Sampler α → Prop} {d : Direction} {range : Span α} {s t u : Sampler α}

theorem AllNodes.mono {q : Sampler α → Prop} (h : s.AllNodes p) (hpq : ∀ n, p n → q n) :
    s.AllNodes q := fun n hn => hpq n (h n hn)

theorem AllNodes.root (h : s.AllNodes p) : p s := by
  apply h
  cases s <;> exact List.mem_cons_self

-- Each constructor gives its list of nodes by unfolding.

@[simp] theorem allNodes_across : (across : Sampler α).AllNodes p ↔ p across :=
  List.forall_mem_singleton

@[simp] theorem allNodes_down : (down : Sampler α).AllNodes p ↔ p down :=
  List.forall_mem_singleton

@[simp] theorem allNodes_const {v : α} : (const v).AllNodes p ↔ p (const v) :=
  List.forall_mem_singleton

@[simp] theorem allNodes_noise {x y o : α} {k : NoiseKind} :
    (noise x y o k).AllNodes p ↔ p (noise x y o k) :=
  List.forall_mem_singleton

theorem forall_nodesOf {layers : List (α × Sampler α)} :
    (∀ n ∈ nodesOf layers, p n) ↔ ∀ l ∈ layers, l.2.AllNodes p := by
  induction layers with
  | nil => exact iff_of_true (List.forall_mem_nil _) (List.forall_mem_nil _)
  | cons l rest ih =>
    rw [List.forall_mem_cons, ← ih]
    exact List.forall_mem_append

@[simp] theorem allNodes_layered {layers : List (α × Sampler α)} :
    (layered layers).AllNodes p ↔ p (layered layers) ∧ ∀ l ∈ layers, l.2.AllNodes p := by
  rw [← forall_nodesOf]
  exact List.forall_mem_cons

@[simp] theorem allNodes_zoom : (zoom range s).AllNodes p ↔ p (zoom range s) ∧ s.AllNodes p :=
  List.forall_mem_cons

@[simp] theorem allNodes_fade : (fade d s t).AllNodes p ↔
    p (fade d s t) ∧ s.AllNodes p ∧ t.AllNodes p :=
  List.forall_mem_cons.trans (and_congr_right fun _ => List.forall_mem_append)

@[simp] theorem allNodes_split : (split d range s t).AllNodes p ↔
    p (split d range s t) ∧ s.AllNodes p ∧ t.AllNodes p :=
  List.forall_mem_cons.trans (and_congr_right fun _ => List.forall_mem_append)

@[simp] theorem allNodes_graph : (graph d s t u).AllNodes p ↔
    p (graph d s t u) ∧ s.AllNodes p ∧ t.AllNodes p ∧ u.AllNodes p := by
  refine List.forall_mem_cons.trans (and_congr_right fun _ => ?_)
  rw [← and_assoc]
  exact List.forall_mem_append.trans (and_congr_left fun _ => List.forall_mem_append)

end AllNodes

variable [Scalar α]

section Made
variable {s : Sampler α}

theorem layered?_eq_ok {layers : List (α × Sampler α)} : layered? layers = .ok s ↔
    (layers.isEmpty = false ∧ Scalar.le (Scalar.sum (layers.map Prod.fst)) 0.0 = false) ∧
      layered (layers.map fun l => (l.1 / Scalar.sum (layers.map Prod.fst), l.2)) = s := by
  rw [layered?, ite_error_eq_ok, Except.ok.injEq, Bool.not_eq_true, Bool.or_eq_false_iff]

theorem zoom?_eq_ok {range : Span α} {inner : Sampler α} : zoom? range inner = .ok s ↔
    Scalar.le range.stop range.start = false ∧ zoom range inner = s := by
  rw [zoom?, ite_error_eq_ok, Except.ok.injEq, Bool.not_eq_true]

theorem noise?_eq_ok {scaleX scaleY offset : α} {kind : NoiseKind} :
    noise? scaleX scaleY offset kind = .ok s ↔
      (Scalar.le scaleX 0.0 = false ∧ Scalar.le scaleY 0.0 = false) ∧
        noise scaleX scaleY offset kind = s := by
  rw [noise?, ite_error_eq_ok, Except.ok.injEq, Bool.not_eq_true, Bool.or_eq_false_iff]

end Made

/-- A weighted sum reads its layers at one cell. -/
theorem weighted?_congr {bs cs : List (α × BakedSampler α)} {x y u v : Int}
    (h : List.Forall₂ (fun b c => b.1 = c.1 ∧ b.2 x y = c.2 u v) bs cs) (total : α) :
    weighted? bs x y total = weighted? cs u v total := by
  induction h generalizing total with
  | nil => rfl
  | cons hbc _ ih => simp only [weighted?, hbc.1, hbc.2, ih]

variable [NoiseSource α]

theorem bakeLayers_eq_mapM (layers : List (α × Sampler α)) (ctx : Context) (pass : Window) :
    bakeLayers layers ctx pass = layers.mapM fun l => (l.1, ·) <$> l.2.bake ctx pass := by
  induction layers with
  | nil => rfl
  | cons l rest ih => simp only [bakeLayers, List.mapM_cons, ih, bind_map_left]

/-- A sampler that can be made ready for the cells of `pass`, and gives each of them a number. -/
def EvaluatesOn (s : Sampler α) (ctx : Context) (pass : Window) : Prop :=
  ∃ baked, s.bake ctx pass = .ok baked ∧
    ∀ x y, pass.contains x y = true → ∃ v, baked x y = .ok v

/-- The number that a sampler, made ready for the cells of `pass`, gives one of them. -/
def sample? (s : Sampler α) (ctx : Context) (pass : Window) (x y : Int) : Except Fault α := do
  (← s.bake ctx pass) x y

end Sampler

namespace Brush

/-- Induction over a brush, in which layers and children are members of their lists. -/
@[elab_as_elim, induction_eliminator]
theorem induct {motive : Brush α → Prop} (fill : ∀ v, motive (fill v)) (ignore : motive ignore)
    (unspecified : motive unspecified)
    (layers : ∀ brushes, (∀ b ∈ brushes, motive b) → motive (layers brushes))
    (selector : ∀ s children, (∀ c ∈ children, motive c.2) → motive (selector s children))
    (b : Brush α) : motive b :=
  @Brush.rec α motive (fun brushes => ∀ b ∈ brushes, motive b)
    (fun children => ∀ c ∈ children, motive c.2) (fun c => motive c.2)
    fill ignore unspecified layers selector (by simp)
    (fun _ _ hb hrest => List.forall_mem_cons.mpr ⟨hb, hrest⟩) (by simp)
    (fun _ _ hc hrest => List.forall_mem_cons.mpr ⟨hc, hrest⟩) (fun _ _ hb => hb) b

mutual

/-- The samplers that a brush selects by. -/
def samplers : Brush α → List (Sampler α)
  | layers brushes => samplersOf brushes
  | selector s children => s :: childSamplers children
  | _ => []

def samplersOf : List (Brush α) → List (Sampler α)
  | [] => []
  | b :: rest => samplers b ++ samplersOf rest

def childSamplers : List (α × Brush α) → List (Sampler α)
  | [] => []
  | (_, b) :: rest => samplers b ++ childSamplers rest

end

/-- A brush all of whose samplers have a property at every node. -/
def AllNodes (p : Sampler α → Prop) (b : Brush α) : Prop := ∀ s ∈ b.samplers, s.AllNodes p

section AllNodes
variable {p : Sampler α → Prop}

@[simp] theorem allNodes_fill {v : Value} : (fill v : Brush α).AllNodes p := by
  simp [AllNodes, samplers]

@[simp] theorem allNodes_ignore : (ignore : Brush α).AllNodes p := by simp [AllNodes, samplers]

theorem forall_samplersOf {brushes : List (Brush α)} :
    (∀ s ∈ samplersOf brushes, p s) ↔ ∀ b ∈ brushes, ∀ s ∈ b.samplers, p s := by
  induction brushes with
  | nil => simp [samplersOf]
  | cons b rest ih => rw [samplersOf, List.forall_mem_append, List.forall_mem_cons, ih]

theorem forall_childSamplers {children : List (α × Brush α)} :
    (∀ s ∈ childSamplers children, p s) ↔ ∀ c ∈ children, ∀ s ∈ c.2.samplers, p s := by
  induction children with
  | nil => simp [childSamplers]
  | cons c rest ih => rw [childSamplers, List.forall_mem_append, List.forall_mem_cons, ih]

@[simp] theorem allNodes_layers {brushes : List (Brush α)} :
    (layers brushes).AllNodes p ↔ ∀ b ∈ brushes, b.AllNodes p := forall_samplersOf

@[simp] theorem allNodes_selector {s : Sampler α} {children : List (α × Brush α)} :
    (selector s children).AllNodes p ↔ s.AllNodes p ∧ ∀ c ∈ children, c.2.AllNodes p := by
  rw [AllNodes, samplers, List.forall_mem_cons, forall_childSamplers]
  rfl

end AllNodes

section Made
variable [Scalar α] {sampler : Sampler α} {children : List (α × Brush α)} {b : Brush α}

theorem selector?_eq_ok : selector? sampler children = .ok b ↔
    (children.isEmpty = false ∧ increasing 0.0 (children.map Prod.fst) = true) ∧
      selector sampler children = b := by
  rw [selector?, ite_error_eq_ok, Bool.not_eq_true, and_assoc]
  by_cases hguard : increasing 0.0 (children.map Prod.fst) = true
  · simp [hguard]
  · simp [hguard]

theorem weighted?_eq_ok : weighted? sampler children = .ok b ↔
    (children.isEmpty = false ∧ Scalar.le (Scalar.sum (children.map Prod.fst)) 0.0 = false) ∧
      selector? sampler (cumulative (Scalar.sum (children.map Prod.fst)) 0.0 children) = .ok b := by
  rw [weighted?, ite_error_eq_ok, Bool.not_eq_true, Bool.or_eq_false_iff]

end Made

/-- Layers read their brushes at one cell. -/
theorem strokes?_congr {bs cs : List BakedBrush} {x y u v : Int}
    (h : List.Forall₂ (fun b c => b x y = c u v) bs cs) (done : Stroke) :
    strokes? bs x y done = strokes? cs u v done := by
  induction h generalizing done with
  | nil => rfl
  | cons hbc _ ih => simp only [strokes?, hbc, ih]

variable [Scalar α] [NoiseSource α]

theorem bakeAll_eq_mapM (brushes : List (Brush α)) (ctx : Context) (pass : Window) :
    bakeAll brushes ctx pass = brushes.mapM fun b => b.bake ctx pass := by
  induction brushes with
  | nil => rfl
  | cons b rest ih => simp only [bakeAll, List.mapM_cons, ih]

theorem bakeChildren_eq_mapM (children : List (α × Brush α)) (ctx : Context) (pass : Window) :
    bakeChildren children ctx pass = children.mapM fun c => (c.1, ·) <$> c.2.bake ctx pass := by
  induction children with
  | nil => rfl
  | cons c rest ih => simp only [bakeChildren, List.mapM_cons, ih, bind_map_left]

omit [NoiseSource α] in
/-- A selection reads its sampler and its children at one cell. -/
theorem chosen?_congr {sample sample' : BakedSampler α} {bs cs : List (α × BakedBrush)}
    {x y u v : Int} (hsample : sample x y = sample' u v)
    (h : List.Forall₂ (fun b c => b.1 = c.1 ∧ b.2 x y = c.2 u v) bs cs) :
    chosen? sample bs x y = chosen? sample' cs u v := by
  have hread (w : α) : (choose w bs).map (fun b => b x y) = (choose w cs).map (fun c => c u v) := by
    induction h with
    | nil => rfl
    | cons hbc hrest ih =>
      cases hrest with
      | nil => exact congrArg some hbc.2
      | cons _ _ =>
        simp only [choose, hbc.1] at ih ⊢
        split
        · exact congrArg some hbc.2
        · exact ih
  rw [chosen?, chosen?, hsample]
  apply bind_congr
  intro w
  have hw := hread w
  cases hb : choose w bs <;> cases hc : choose w cs <;> rw [hb, hc] at hw <;> simp_all

/-- What a cell of `pass` that holds `v` holds after a brush, made ready for the pass, was
applied. -/
def painted? (b : Brush α) (ctx : Context) (pass : Window) (x y : Int) (v : Value) :
    Except Fault Value := do
  let stroke ← (← b.bake ctx pass) x y
  pure (stroke.applyTo v)

end Brush
end TileWorld
