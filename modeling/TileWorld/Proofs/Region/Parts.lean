import TileWorld.Proofs.Number.Scaled
import TileWorld.Proofs.Number.Integers
import TileWorld.Proofs.Region.Exact
import TileWorld.Proofs.Region.Tiling

/-! Cutting an axis of a context at fractions from zero to one. Every cut is found by its own product
and truncation; since these keep the order of the fractions, and are exact at zero and at one, the
parts follow each other without gaps or overlaps. -/
namespace TileWorld

namespace Double
open Float.Model.UnpackedFloat

/-- A fraction that takes a whole number of an integer is cut off there. -/
theorem scale?_of_exact {n k : ℤ} (hn : |n| ≤ 2 ^ 53) (hk₀ : 0 ≤ k) (hk : k ≤ 2 ^ 53) {x : Float}
    (hx : (value x).isFinite = true) (h : (n : ℚ) * exact (value x) = k) :
    Scalar.scale? n x = .ok k := by
  have habs : |k| ≤ 2 ^ 53 := by rwa [abs_of_nonneg hk₀]
  have hsize : Sizable n := hn.trans (by norm_num)
  have hsize' : Sizable k := habs.trans (by norm_num)
  have hproduct : exact (value (Float.ofInt n)) * exact (value x) = k := by rw [exact_ofInt hn, h]
  have hrounds := Rounds.mul hsize.rounds.finite hx (by rw [hproduct]; exact_mod_cast hsize')
  rw [hproduct] at hrounds
  have hexact : exact (value (Float.ofInt n * x)) = k := by
    rw [hrounds.exact_eq hsize'.rounds.finite (exact_ofInt habs).symm, exact_ofInt habs]
  have hnonneg : NotNegative (value (Float.ofInt n * x)) := by
    rw [notNegative_iff hrounds.place]
    have hmono := nearestPlace_mono (show (0 : ℚ) ≤ k by exact_mod_cast hk₀)
    rwa [nearestPlace_zero] at hmono
  rw [Scalar.scale?, hsize.ofInt?, ok_bind, truncate?_eq_ok]
  refine ⟨hrounds.finite, ?_⟩
  rw [truncate_ofFloat hrounds.finite hnonneg, hexact, Int.floor_intCast]

theorem exact_of_same {x y : Float} (hy : (value y).isFinite = true) (h : Scalar.same x y = true) :
    (value x).isFinite = true ∧ exact (value x) = exact (value y) := by
  obtain ⟨hle, hge⟩ := Bool.and_eq_true_iff.mp h
  obtain ⟨a, b, ha, hb, hab⟩ := scalar_le_iff.mp hle
  obtain ⟨b', a', hb', ha', hba⟩ := scalar_le_iff.mp hge
  obtain rfl : a = a' := Option.some.inj (ha.symm.trans ha')
  obtain rfl : b = b' := Option.some.inj (hb.symm.trans hb')
  obtain rfl : a = b := le_antisymm hab hba
  obtain ⟨p, hp, hlow, hhigh⟩ := isFinite_value_iff.mp hy
  obtain rfl : a = p := Option.some.inj (hb.symm.trans hp)
  have hx : (value x).isFinite = true := isFinite_value_iff.mpr ⟨a, ha, hlow, hhigh⟩
  exact ⟨hx, exact_inj (canonical_value x) (canonical_value y) hx hy (ha.trans hb.symm)⟩

variable {n : ℤ} (hn₀ : 0 ≤ n) (hn : n ≤ 2 ^ 53)
include hn₀ hn

/-- Nothing is cut off at zero. -/
theorem scale?_same_zero {x : Float} (hx : Scalar.same x 0.0 = true) : Scalar.scale? n x = .ok 0 := by
  obtain ⟨hfinite, hexact⟩ := exact_of_same rfl hx
  have hzero : exact (value 0.0) = 0 := rfl
  refine scale?_of_exact (by rwa [abs_of_nonneg hn₀]) le_rfl (by norm_num) hfinite ?_
  rw [hexact, hzero, mul_zero, Int.cast_zero]

/-- All is cut off at one. -/
theorem scale?_same_one {x : Float} (hx : Scalar.same x 1.0 = true) : Scalar.scale? n x = .ok n := by
  obtain ⟨hfinite, hexact⟩ := exact_of_same rfl hx
  refine scale?_of_exact (by rwa [abs_of_nonneg hn₀]) hn₀ hn hfinite ?_
  rw [hexact, exact_one, mul_one]

end Double

/-- The spans between fractions and the next ones. -/
def Span.between (fractions : List Float) : List (Span Float) :=
  List.zipWith Span.mk fractions fractions.tail

/-- Fractions in order, from zero at first to one at last. -/
structure Cuts (fractions : List Float) : Prop where
  ordered : fractions.IsChain fun f g => Scalar.le f g = true
  first : ∃ f, fractions.head? = some f ∧ Scalar.same f 0.0 = true
  last : ∃ f, fractions.getLast? = some f ∧ Scalar.same f 1.0 = true

namespace Interval
variable {i : Interval}

theorem part?_eq_ok {s : Span Float} {a b : ℤ} (ha : Scalar.scale? i.extent s.start = .ok a)
    (hb : Scalar.scale? i.extent s.stop = .ok b) :
    i.part? s = .ok ⟨i.start + a, i.start + b⟩ := by
  rw [part?, ha, ok_bind, hb, ok_bind, pure_eq_ok]

/-- The numbers of consecutive intervals are those from the first start to the last stop. -/
theorem Abuts.exists_contains_iff {top bottom : ℤ} {parts : List Interval}
    (h : Abuts top bottom parts) (n : ℤ) :
    (∃ r ∈ parts, r.contains n = true) ↔ top ≤ n ∧ n < bottom := by
  constructor
  · intro hr
    obtain ⟨r, hr, hn⟩ := hr
    obtain ⟨htop, -, hbottom⟩ := h.bounds hr
    rw [contains_iff] at hn
    omega
  · intro hn
    exact h.exists_contains hn.1 hn.2

theorem start_add_extent (i : Interval) : i.start + i.extent = i.stop := by
  unfold extent
  omega

/-- An interval that is not reversed and whose extent is a double. -/
def Exact (i : Interval) : Prop := 0 ≤ i.extent ∧ i.extent ≤ 2 ^ 53

theorem Exact.part?_full (hi : i.Exact) : i.part? (Span.full : Span Float) = .ok i := by
  obtain ⟨hi₀, hi₁⟩ := hi
  have hzero := Double.scale?_same_zero hi₀ hi₁ (x := 0.0) (by decide)
  have hone := Double.scale?_same_one hi₀ hi₁ (x := 1.0) (by decide)
  have hpart : i.part? Span.full = .ok ⟨i.start + 0, i.start + i.extent⟩ := part?_eq_ok hzero hone
  rw [hpart, add_zero, start_add_extent]

/-- Fractions in order up to one cut an interval into consecutive parts, from where the first of them
cuts it to its stop. The induction is on the fractions, from the last. -/
theorem Exact.exists_parts (hi : i.Exact) {f : Float} {rest : List Float}
    (hordered : (f :: rest).IsChain fun f g => Scalar.le f g = true)
    (hf : Scalar.le 0.0 f = true)
    (hlast : ∃ g, (f :: rest).getLast? = some g ∧ Scalar.same g 1.0 = true) :
    Scalar.IsShare f ∧ ∃ a parts, Scalar.scale? i.extent f = .ok a ∧
      (Span.between (f :: rest)).mapM i.part? = .ok parts ∧
      Abuts (i.start + a) i.stop parts := by
  obtain ⟨hi₀, hi₁⟩ := hi
  induction rest generalizing f with
  | nil =>
    obtain ⟨g, hg, hone⟩ := hlast
    obtain rfl : f = g := Option.some.inj hg
    exact ⟨⟨hf, (Bool.and_eq_true_iff.mp hone).1⟩, _, [],
      Double.scale?_same_one hi₀ hi₁ hone, rfl, i.start_add_extent⟩
  | cons g rest ih =>
    obtain ⟨hfg, hrest⟩ := List.isChain_cons_cons.mp hordered
    rw [List.getLast?_cons_cons] at hlast
    obtain ⟨hg, b, parts, hb, hparts, habuts⟩ := ih hrest (Double.scalar_le_trans hf hfg) hlast
    have hshare : Scalar.IsShare f := ⟨hf, Double.scalar_le_trans hfg hg.2⟩
    obtain ⟨a, ha, -, -⟩ := Double.exists_scale?_share hi₀ (hi₁.trans (by norm_num)) hshare
    have hab := Double.scale?_mono hi₀ (Double.isWeight_notNegative hf) hfg ha hb
    have hpart : i.part? ⟨f, g⟩ = .ok ⟨i.start + a, i.start + b⟩ := part?_eq_ok ha hb
    refine ⟨hshare, a, ⟨i.start + a, i.start + b⟩ :: parts, ha, ?_, rfl, ?_, habuts⟩
    · show (⟨f, g⟩ :: Span.between (g :: rest)).mapM i.part? = _
      rw [List.mapM_cons, hpart, ok_bind, hparts, ok_bind, pure_eq_ok]
    · show i.start + a ≤ i.start + b
      omega

/-- Cuts from zero to one cut an interval into parts that cover it end to end. -/
theorem Exact.exists_abuts (hi : i.Exact) {fractions : List Float} (h : Cuts fractions) :
    ∃ parts, (Span.between fractions).mapM i.part? = .ok parts ∧ Abuts i.start i.stop parts := by
  obtain ⟨hordered, ⟨f, hf, hzero⟩, hlast⟩ := h
  obtain ⟨rest, rfl⟩ := List.head?_eq_some_iff.mp hf
  obtain ⟨-, a, parts, ha, hparts, habuts⟩ :=
    hi.exists_parts hordered (Bool.and_eq_true_iff.mp hzero).2 hlast
  rw [Double.scale?_same_zero hi.1 hi.2 hzero] at ha
  obtain rfl := Except.ok.inj ha
  rw [add_zero] at habuts
  exact ⟨parts, hparts, habuts⟩

end Interval

namespace Context
variable {c : Context}

/-- A context with another interval in a direction. -/
def withAxis (c : Context) (d : Direction) (i : Interval) : Context :=
  if d.isVertical then ⟨⟨c.columns, i⟩, c.world⟩ else ⟨⟨i, c.rows⟩, c.world⟩

@[simp] theorem withAxis_axis (c : Context) (d : Direction) (i : Interval) :
    (c.withAxis d i).axis d = i := by
  cases d <;> rfl

@[simp] theorem withAxis_front (c : Context) (d : Direction) (i : Interval) :
    (c.withAxis d i).front d = c.front d := by
  cases d <;> rfl

/-- Pieces that together visit the cells of a context, each of them once. -/
def VisitedBy (c : Context) (pieces : List Context) : Prop :=
  (pieces.flatMap fun p => p.cells).Nodup ∧ (pieces.flatMap fun p => p.cells).Perm c.cells

theorem mem_cells_withAxis {d : Direction} {i : Interval} {x y : ℤ} :
    (x, y) ∈ (c.withAxis d i).cells ↔
      i.contains (d.along x y) = true ∧ (c.front d).contains (d.across x y) = true := by
  rw [Window.mem_cells, Window.contains_iff_axis _ d, withAxis_axis, withAxis_front]

/-- Consecutive parts of an axis make pieces that visit every cell once. -/
theorem visitedBy_of_abuts {d : Direction} {parts : List Interval}
    (h : Interval.Abuts (c.axis d).start (c.axis d).stop parts) :
    c.VisitedBy (parts.map (c.withAxis d)) := by
  have hnodup : ((parts.map (c.withAxis d)).flatMap fun p => p.cells).Nodup := by
    rw [List.nodup_flatMap, List.forall_mem_map, List.pairwise_map]
    refine ⟨fun part _ => Window.nodup_cells _, h.pairwise.imp fun {i j} hij => ?_⟩
    intro cell hi hj
    obtain ⟨x, y⟩ := cell
    rw [mem_cells_withAxis, Interval.contains_iff] at hi hj
    omega
  refine ⟨hnodup, (List.perm_ext_iff_of_nodup hnodup c.nodup_cells).mpr fun cell => ?_⟩
  obtain ⟨x, y⟩ := cell
  have hcover := h.exists_contains_iff (d.along x y)
  rw [← Interval.contains_iff] at hcover
  rw [List.flatMap_map, List.mem_flatMap, Window.mem_cells, Window.contains_iff_axis _ d, ← hcover]
  simp only [mem_cells_withAxis, ← and_assoc, exists_and_right]

/-- The part of a context that a span names in a direction, whole across it. -/
def extendAlong? (c : Context) (d : Direction) (s : Span Float) : Except Fault Context :=
  if d.isVertical then c.extend? Span.full s else c.extend? s Span.full

theorem extendAlong?_eq_map {d : Direction} (hc : (c.front d).Exact) (s : Span Float) :
    c.extendAlong? d s = c.withAxis d <$> (c.axis d).part? s := by
  have hfull := hc.part?_full
  have hdown (s : Span Float) (h : c.columns.part? (Span.full : Span Float) = .ok c.columns) :
      c.extend? Span.full s = (fun i => ⟨⟨c.columns, i⟩, c.world⟩) <$> c.rows.part? s := by
    rw [extend?, h, ok_bind, bind_pure_comp]
  have hacross (s : Span Float) (h : c.rows.part? (Span.full : Span Float) = .ok c.rows) :
      c.extend? s Span.full = (fun i => ⟨⟨i, c.rows⟩, c.world⟩) <$> c.columns.part? s := by
    rw [extend?, h]
    exact bind_pure_comp _ _
  cases d
  · exact hdown s hfull
  · exact hdown s hfull
  · exact hacross s hfull
  · exact hacross s hfull

/-- Cuts from zero to one in a direction cut a context into pieces end to end. -/
theorem exists_pieces {d : Direction} (haxis : (c.axis d).Exact) (hfront : (c.front d).Exact)
    {fractions : List Float} (hcuts : Cuts fractions) :
    ∃ parts, (Span.between fractions).mapM (c.extendAlong? d) = .ok (parts.map (c.withAxis d)) ∧
      Interval.Abuts (c.axis d).start (c.axis d).stop parts ∧
      c.VisitedBy (parts.map (c.withAxis d)) := by
  obtain ⟨parts, hparts, habuts⟩ := haxis.exists_abuts hcuts
  refine ⟨parts, ?_, habuts, visitedBy_of_abuts habuts⟩
  rw [mapM_eq_map fun s _ => extendAlong?_eq_map hfront s, hparts]
  rfl

/-- Fractions in order from zero to one cut a context into pieces whose columns follow each other
from its first to its last and whose rows are its own, or the other way round; either pieces visit
each of its cells once. The full spans keep it as it is. -/
theorem cuts_tile (hcolumns : c.columns.Exact) (hrows : c.rows.Exact) {fractions : List Float}
    (hcuts : Cuts fractions) :
    (∃ parts : List Interval,
      (Span.between fractions).mapM (fun s => c.extend? s Span.full) =
          .ok (parts.map fun i => ⟨⟨i, c.rows⟩, c.world⟩) ∧
        Interval.Abuts c.columns.start c.columns.stop parts ∧
        c.VisitedBy (parts.map fun i => ⟨⟨i, c.rows⟩, c.world⟩)) ∧
      (∃ parts : List Interval,
        (Span.between fractions).mapM (fun s => c.extend? Span.full s) =
            .ok (parts.map fun i => ⟨⟨c.columns, i⟩, c.world⟩) ∧
          Interval.Abuts c.rows.start c.rows.stop parts ∧
          c.VisitedBy (parts.map fun i => ⟨⟨c.columns, i⟩, c.world⟩)) ∧
      c.extend? (Span.full : Span Float) Span.full = .ok c := by
  refine ⟨?_, ?_, ?_⟩
  · exact exists_pieces (d := .right) hcolumns hrows hcuts
  · exact exists_pieces (d := .up) hrows hcolumns hcuts
  · exact extend?_eq_ok.mpr ⟨hcolumns.part?_full, hrows.part?_full, rfl⟩

/-- Ten columns, from the third on, and four rows. -/
def sampleContext : Context := ⟨⟨⟨3, 13⟩, ⟨0, 4⟩⟩, ⟨20, 4, 1⟩⟩

/-- Two cuts at three tenths of them, so that the piece between is empty. -/
def samplePieces : List Context :=
  [⟨⟨⟨3, 6⟩, ⟨0, 4⟩⟩, ⟨20, 4, 1⟩⟩, ⟨⟨⟨6, 6⟩, ⟨0, 4⟩⟩, ⟨20, 4, 1⟩⟩,
    ⟨⟨⟨6, 13⟩, ⟨0, 4⟩⟩, ⟨20, 4, 1⟩⟩]

theorem cuts_tile_sample :
    (Span.between [0.0, 0.3, 0.3, 1.0]).mapM (fun s => sampleContext.extend? s Span.full) =
        .ok samplePieces ∧
      sampleContext.VisitedBy samplePieces := by
  have hcuts : Cuts [0.0, 0.3, 0.3, 1.0] :=
    ⟨by simp only [List.isChain_cons_cons, List.isChain_singleton]; decide +kernel,
      ⟨0.0, rfl, by decide +kernel⟩, ⟨1.0, rfl, by decide +kernel⟩⟩
  have hpieces : (Span.between [0.0, 0.3, 0.3, 1.0]).mapM
      (fun s => sampleContext.extend? s Span.full) = .ok samplePieces := by decide +kernel
  obtain ⟨⟨parts, hparts, -, hvisited⟩, -, -⟩ :=
    cuts_tile (c := sampleContext) ⟨by decide, by decide⟩ ⟨by decide, by decide⟩ hcuts
  rw [hparts, Except.ok.injEq] at hpieces
  rw [hpieces] at hparts hvisited
  exact ⟨hparts, hvisited⟩

end Context
end TileWorld
