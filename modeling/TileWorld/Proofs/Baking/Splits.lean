import TileWorld.Proofs.Baking.Tree
import TileWorld.Proofs.Noise.Field
import TileWorld.Proofs.Region.Exact

/-! Which cells of a context a split takes its inner sampler at, in exact arithmetic. Down and left
they are those of the part that its children are placed in; up and right they are the same cells
moved by one. -/
namespace TileWorld

/-- A window moved on by a cell, in directions in which coordinates grow. -/
def Window.ahead (w : Window) : Direction → Window
  | .up => w.shift 0 1
  | .right => w.shift 1 0
  | .down | .left => w

theorem Window.ahead_of_descends (w : Window) {d : Direction} (hd : d.ascends = false) :
    w.ahead d = w := by
  cases d
  · cases hd
  · rfl
  · rfl
  · cases hd

theorem Window.ahead_contains_iff (w : Window) (d : Direction) (x y : ℤ) :
    (w.ahead d).contains x y = true ↔
      (w.axis d).contains (d.along x y - if d.ascends then 1 else 0) = true ∧
        (w.front d).contains (d.across x y) = true := by
  cases d <;> simp only [ahead, Window.contains_iff, Interval.contains_iff, shift, Interval.shift,
    axis, front, Direction.along, Direction.across, Direction.isVertical, Direction.ascends,
    if_true, Bool.false_eq_true, if_false] <;> omega

namespace Sampler
variable {ctx sub : Context} {d : Direction} {range : Span ℚ} {a b : ℤ}

/-- The part of an axis between whole multiples of its extent. -/
theorem axis_splitContext? (hextent : 0 < (ctx.axis d).extent) (hstart : 0 ≤ range.start)
    (horder : range.start ≤ range.stop) (hstop : range.stop ≤ 1)
    (ha : range.start * (ctx.axis d).extent = a) (hb : range.stop * (ctx.axis d).extent = b)
    (h : splitContext? ctx d range = .ok sub) :
    sub.axis d = if d.ascends then ⟨(ctx.axis d).stop - b, (ctx.axis d).stop - a⟩
      else ⟨(ctx.axis d).start + a, (ctx.axis d).start + b⟩ := by
  obtain ⟨haxis, -, -⟩ := splitContext?_rat.mp h
  have hend : (ctx.axis d).extent = (ctx.axis d).stop - (ctx.axis d).start := rfl
  unfold Span.seenFrom Span.flip at haxis
  split_ifs at haxis ⊢ with hascends
  · rw [Interval.part?_rat hextent.le (by norm_num; linarith) (by norm_num; linarith),
      Except.ok.injEq] at haxis
    have hfloor {c : ℚ} {m : ℤ} (hm : c * (ctx.axis d).extent = m) :
        ⌊((ctx.axis d).extent : ℚ) * (1.0 - c)⌋ = (ctx.axis d).extent - m := by
      have hwhole : ((ctx.axis d).extent : ℚ) * (1.0 - c) = ((ctx.axis d).extent - m : ℤ) := by
        rw [Scalar.one_rat, mul_sub, mul_one, mul_comm, hm, Int.cast_sub]
      rw [hwhole, Int.floor_intCast]
    rw [← haxis, hfloor ha, hfloor hb, Interval.mk.injEq]
    omega
  · rw [Interval.part?_rat hextent.le hstart (hstart.trans horder), Except.ok.injEq] at haxis
    rw [← haxis, mul_comm _ range.start, mul_comm _ range.stop, ha, hb, Int.floor_intCast,
      Int.floor_intCast]

/-- The cells at which the distance left lies in the range of a split. -/
theorem range_contains_eq (hextent : 0 < (ctx.axis d).extent) (hstart : 0 ≤ range.start)
    (horder : range.start ≤ range.stop) (hstop : range.stop ≤ 1)
    (ha : range.start * (ctx.axis d).extent = a) (hb : range.stop * (ctx.axis d).extent = b)
    (h : splitContext? ctx d range = .ok sub) {x y : ℤ} (hxy : ctx.contains x y = true) :
    range.contains (1.0 - ctx.way d x y) = (sub.ahead d).contains x y := by
  have haxis := axis_splitContext? hextent hstart horder hstop ha hb h
  obtain ⟨-, hfront, -⟩ := splitContext?_rat.mp h
  have hpos : (0 : ℚ) < (ctx.axis d).extent := by exact_mod_cast hextent
  have hend : (ctx.axis d).extent = (ctx.axis d).stop - (ctx.axis d).start := rfl
  have hacross := ((Window.contains_iff_axis _ d x y).mp hxy).2
  rw [Bool.eq_iff_iff, Window.ahead_contains_iff, hfront, and_iff_left hacross, haxis,
    Span.contains, Bool.and_eq_true, Scalar.le_rat, Scalar.lt_rat, Scalar.one_rat, Window.way,
    Interval.place]
  split_ifs with hascends
  · rw [le_sub_comm, sub_lt_comm, div_le_iff₀ hpos, lt_div_iff₀ hpos, sub_mul, sub_mul, ha, hb,
      one_mul, Interval.contains_iff]
    dsimp only
    norm_cast
    omega
  · rw [sub_sub_cancel, le_div_iff₀ hpos, div_lt_iff₀ hpos, ha, hb, Interval.contains_iff]
    dsimp only
    norm_cast
    omega

/-- In directions in which coordinates grow, the first cell of the part of a context is not in that
part moved on by one. -/
theorem exists_contains_not_ahead (hfront : 0 < (ctx.front d).extent)
    (hextent : 0 < (ctx.axis d).extent) (hd : d.ascends = true) (hstart : 0 ≤ range.start)
    (horder : range.start < range.stop) (hstop : range.stop ≤ 1)
    (ha : range.start * (ctx.axis d).extent = a) (hb : range.stop * (ctx.axis d).extent = b)
    (h : splitContext? ctx d range = .ok sub) :
    ∃ x y, ctx.contains x y = true ∧ sub.contains x y = true ∧
      (sub.ahead d).contains x y = false := by
  have haxis := axis_splitContext? hextent hstart horder.le hstop ha hb h
  obtain ⟨-, hacross, -⟩ := splitContext?_rat.mp h
  have hpos : (0 : ℚ) < (ctx.axis d).extent := by exact_mod_cast hextent
  have hlt : a < b := by exact_mod_cast ha ▸ hb ▸ mul_lt_mul_of_pos_right horder hpos
  have hzero : 0 ≤ a := by exact_mod_cast ha ▸ mul_nonneg hstart hpos.le
  have hone : b ≤ (ctx.axis d).extent := by
    exact_mod_cast hb ▸ mul_le_of_le_one_left hpos.le hstop
  rw [if_pos hd] at haxis
  unfold Interval.extent at hfront hone
  obtain ⟨x, y, hx, hy⟩ := d.exists_cell (sub.axis d).start (ctx.front d).start
  refine ⟨x, y, ?_, ?_, ?_⟩
  · rw [Window.contains_iff_axis _ d, hx, hy, haxis, Interval.contains_iff, Interval.contains_iff]
    dsimp only
    omega
  · rw [Window.contains_iff_axis _ d, hx, hy, hacross, haxis, Interval.contains_iff,
      Interval.contains_iff]
    dsimp only
    omega
  · rw [Bool.eq_false_iff, Ne, Window.ahead_contains_iff, hx, if_pos hd, Interval.contains_iff]
    omega

/-- Where its children can be baked, a split takes `inner` at the cells of its context for which `p`
holds, and `outer` at the others. -/
def Divides [NoiseSource ℚ] (ctx sub : Context) (d : Direction) (range : Span ℚ)
    (p : ℤ → ℤ → Bool) : Prop :=
  ∀ inner outer pass f g, inner.bake sub pass = .ok f → outer.bake sub pass = .ok g →
    ∃ baked, (split d range inner outer).bake ctx pass = .ok baked ∧
      ∀ x y, ctx.contains x y = true → baked x y = if p x y then f x y else g x y

variable [NoiseSource ℚ]

theorem divides_of_contains {p : ℤ → ℤ → Bool} (hsub : splitContext? ctx d range = .ok sub)
    (hp : ∀ x y, ctx.contains x y = true → range.contains (1.0 - ctx.way d x y) = p x y) :
    Divides ctx sub d range p := by
  intro inner outer pass f g hf hg
  refine ⟨_, by rw [bake, hsub, ok_bind, hf, ok_bind, hg, ok_bind, pure_eq_ok], fun x y hxy => ?_⟩
  rw [Window.toward?_rat, ok_bind, hp x y hxy]

/-- A split of two constants shows which cells it takes each of them at. -/
theorem Divides.unique {p q : ℤ → ℤ → Bool} (hp : Divides ctx sub d range p)
    (hq : Divides ctx sub d range q) {x y : ℤ} (hxy : ctx.contains x y = true) : p x y = q x y := by
  obtain ⟨baked, hbaked, hcells⟩ := hp (.const 1) (.const 0) ctx.toWindow _ _ rfl rfl
  obtain ⟨baked', hbaked', hcells'⟩ := hq (.const 1) (.const 0) ctx.toWindow _ _ rfl rfl
  obtain rfl := Except.ok.inj (hbaked.symm.trans hbaked')
  have hsame := (hcells x y hxy).symm.trans (hcells' x y hxy)
  cases hp : p x y <;> cases hq : q x y <;> simp_all

/-- A split whose range has whole ends takes its inner sampler at the cells of its part of the
context, moved on by one in directions in which coordinates grow. They are the cells of that part,
which its children are placed in, down and left or where the range is empty, and in no other case.
The full range names all of the context. -/
theorem split_divides (hwidth : 0 < ctx.width) (hheight : 0 < ctx.height) (d : Direction)
    (hstart : 0 ≤ range.start) (horder : range.start ≤ range.stop) (hstop : range.stop ≤ 1)
    (ha : range.start * (ctx.axis d).extent = a) (hb : range.stop * (ctx.axis d).extent = b) :
    ∃ sub, splitContext? ctx d range = .ok sub ∧ Divides ctx sub d range (sub.ahead d).contains ∧
      (Divides ctx sub d range sub.contains ↔ d.ascends = false ∨ range.start = range.stop) ∧
      (range.start = 0 → range.stop = 1 → sub = ctx) := by
  have hextent : 0 < (ctx.axis d).extent := by cases d <;> assumption
  have hfrontExtent : 0 < (ctx.front d).extent := by cases d <;> assumption
  obtain ⟨sub, hsub⟩ := exists_splitContext?_rat ctx d range
  have haxis := axis_splitContext? hextent hstart horder hstop ha hb hsub
  obtain ⟨-, hfront, hworld⟩ := splitContext?_rat.mp hsub
  have hpos : (0 : ℚ) < (ctx.axis d).extent := by exact_mod_cast hextent
  have hahead : Divides ctx sub d range (sub.ahead d).contains :=
    divides_of_contains hsub fun x y => range_contains_eq hextent hstart horder hstop ha hb hsub
  refine ⟨sub, hsub, hahead, ⟨fun hdivides => ?_, fun hd => ?_⟩, fun hzero hone => ?_⟩
  · by_contra hd
    obtain ⟨hascends, hne⟩ := not_or.mp hd
    obtain ⟨x, y, hxy, hin, hout⟩ := exists_contains_not_ahead hfrontExtent hextent
      (Bool.of_not_eq_false hascends) hstart (lt_of_le_of_ne horder hne) hstop ha hb hsub
    have hsame := hdivides.unique hahead hxy
    rw [hin, hout] at hsame
    cases hsame
  · refine divides_of_contains hsub fun x y hxy => ?_
    rw [range_contains_eq hextent hstart horder hstop ha hb hsub hxy]
    obtain hdescends | hempty := hd
    · rw [Window.ahead_of_descends _ hdescends]
    · have hab : a = b := by exact_mod_cast ha.symm.trans (hempty ▸ hb)
      have hnone (m : ℤ) : (sub.axis d).contains m = false := by
        rw [Bool.eq_false_iff, Ne, Interval.contains_iff, haxis, hab]
        split_ifs <;> exact fun h => by obtain ⟨hlow, hhigh⟩ := h; exact hlow.not_gt hhigh
      rw [Bool.eq_iff_iff, Window.ahead_contains_iff, Window.contains_iff_axis _ d, hnone, hnone]
  · rw [hzero, zero_mul] at ha
    rw [hone, one_mul] at hb
    obtain rfl : 0 = a := by exact_mod_cast ha
    obtain rfl : (ctx.axis d).extent = b := by exact_mod_cast hb
    refine Context.eq_of_axis d ?_ hfront hworld
    rw [haxis, Interval.extent]
    split_ifs <;> simp

omit [NoiseSource ℚ] in
/-- The bottom half of four rows, going up. -/
theorem split_divides_sample : ∃ sub,
    splitContext? ⟨⟨⟨0, 2⟩, ⟨1, 5⟩⟩, ⟨2, 5, 7⟩⟩ .up (⟨0, 1 / 2⟩ : Span ℚ) = .ok sub ∧
      @Divides Field.plane ⟨⟨⟨0, 2⟩, ⟨1, 5⟩⟩, ⟨2, 5, 7⟩⟩ sub .up ⟨0, 1 / 2⟩
        (sub.shift 0 1).contains ∧
      ¬@Divides Field.plane ⟨⟨⟨0, 2⟩, ⟨1, 5⟩⟩, ⟨2, 5, 7⟩⟩ sub .up ⟨0, 1 / 2⟩ sub.contains := by
  have hextent : (1 / 2 : ℚ) * ((⟨1, 5⟩ : Interval).extent : ℤ) = (2 : ℤ) := by
    norm_num [Interval.extent]
  obtain ⟨sub, hsub, hahead, hiff, -⟩ := @split_divides ⟨⟨⟨0, 2⟩, ⟨1, 5⟩⟩, ⟨2, 5, 7⟩⟩ ⟨0, 1 / 2⟩ 0 2
    Field.plane (by decide) (by decide) .up le_rfl (by norm_num) (by norm_num)
    (by rw [zero_mul, Int.cast_zero]) hextent
  refine ⟨sub, hsub, hahead, fun h => ?_⟩
  have hempty := (hiff.mp h).resolve_left (by decide)
  norm_num at hempty

end Sampler
end TileWorld
