import TileWorld.Proofs.Baking.Passes
import TileWorld.Proofs.Region.Exact

/-! Samplers that stay in the unit interval, in exact arithmetic. A fade blends its children by how
far a cell lies through the context, which is a share as long as the context holds the cell. Parts
of contexts hold the cells at which splits take their inner sampler, and need not hold the others. -/
namespace TileWorld

/-- Numbers from zero to one. -/
abbrev unit : Set ℚ := Set.Icc 0 1

namespace Sampler

theorem clamp_mem (v : ℚ) : clamp v ∈ unit := by
  unfold clamp
  simp only [Scalar.lt_rat, Scalar.zero_rat, Scalar.one_rat]
  split_ifs with hlow hhigh
  · exact ⟨le_rfl, zero_le_one⟩
  · exact ⟨zero_le_one, le_rfl⟩
  · exact ⟨not_lt.mp hlow, not_lt.mp hhigh⟩

/-- What noise is read as is cut off like the values of a zoom. -/
theorem unitRange_mem (raw : ℚ) : unitRange Scalar.store raw ∈ unit := clamp_mem _

theorem blend_mem {u v pos : ℚ} (hu : u ∈ unit) (hv : v ∈ unit) (hpos : 0 ≤ pos ∧ pos ≤ 1) :
    u * pos + v * (1.0 - pos) ∈ unit := by
  have hleft : 0 ≤ 1 - pos := sub_nonneg.mpr hpos.2
  rw [Scalar.one_rat]
  constructor
  · exact add_nonneg (mul_nonneg hu.1 hpos.1) (mul_nonneg hv.1 hleft)
  · calc u * pos + v * (1 - pos)
        ≤ 1 * pos + 1 * (1 - pos) := add_le_add (mul_le_mul_of_nonneg_right hu.2 hpos.1)
          (mul_le_mul_of_nonneg_right hv.2 hleft)
      _ = 1 := by ring

/-- A sum with weights adds between nothing and the sum of its weights. -/
theorem weighted?_mem {baked : List (ℚ × BakedSampler ℚ)} {x y : ℤ}
    (h : ∀ l ∈ baked, 0 ≤ l.1 ∧ ∀ v, l.2 x y = .ok v → v ∈ unit) {total v : ℚ}
    (hv : weighted? baked x y total = .ok v) :
    total ≤ v ∧ v ≤ total + (baked.map Prod.fst).sum := by
  induction baked generalizing total with
  | nil =>
    obtain rfl := Except.ok.inj hv
    exact ⟨le_rfl, by rw [List.map_nil, List.sum_nil, add_zero]⟩
  | cons l rest ih =>
    rw [List.forall_mem_cons] at h
    obtain ⟨u, hu, hv⟩ := bind_eq_ok.mp hv
    obtain ⟨hweight, hvalue⟩ := h.1
    obtain ⟨hlow, hhigh⟩ := hvalue u hu
    obtain ⟨hfrom, hto⟩ := ih h.2 hv
    have hstep : 0 ≤ u * l.1 := mul_nonneg hlow hweight
    have hstep' : u * l.1 ≤ l.1 := mul_le_of_le_one_left hweight hhigh
    rw [List.map_cons, List.sum_cons]
    constructor <;> linarith

/-- Shares of a total add up to one. -/
theorem sum_shares {layers : List (ℚ × Sampler ℚ)} (h : 0 < (layers.map Prod.fst).sum) :
    ((layers.map fun l => (l.1 / (layers.map Prod.fst).sum, l.2)).map Prod.fst).sum = 1 := by
  simp only [List.map_map, Function.comp_def, div_eq_mul_inv]
  rw [List.sum_map_mul_right, mul_inv_cancel₀ h.ne']

theorem ramp?_rat {i : Interval} (hi : i.start < i.stop) :
    ∃ f : ℤ → Except Fault ℚ, ramp? i = .ok f ∧ ∀ n, f n = .ok (i.place n) := by
  have hextent : (i.extent : ℚ) ≠ 0 := by exact_mod_cast (Int.sub_pos.mpr hi).ne'
  exact ⟨_, rfl, fun n => Scalar.divide?_rat hextent⟩

/-- A node that its constructor lets through, and that has a rule. -/
def Usable : Sampler ℚ → Prop
  | unspecified => False
  | zoom range _ => range.start < range.stop
  | noise scaleX scaleY _ _ => 0 < scaleX ∧ 0 < scaleY
  | _ => True

/-- Samplers that the constructors return of constants in the unit interval, weights that are not
negative and spans of splits in the unit interval. Zooms may be made of any samplers. `fades` tells
whether fades may occur outside of them: beneath the outer child of a split they may not. -/
inductive Bounded : Bool → Sampler ℚ → Prop where
  | across {fades : Bool} : Bounded fades across
  | down {fades : Bool} : Bounded fades down
  | const {fades : Bool} {v : ℚ} (hv : v ∈ unit) : Bounded fades (const v)
  | noise {fades : Bool} {scaleX scaleY offset : ℚ} {kind : NoiseKind} {s : Sampler ℚ}
      (h : noise? scaleX scaleY offset kind = .ok s) : Bounded fades s
  | zoom {fades : Bool} {range : Span ℚ} {inner s : Sampler ℚ} (hinner : inner.AllNodes Usable)
      (h : zoom? range inner = .ok s) : Bounded fades s
  | layered {fades : Bool} {layers : List (ℚ × Sampler ℚ)} {s : Sampler ℚ}
      (hweights : ∀ l ∈ layers, 0 ≤ l.1) (hlayers : ∀ l ∈ layers, Bounded fades l.2)
      (h : layered? layers = .ok s) : Bounded fades s
  | fade (d : Direction) {far near : Sampler ℚ} (hfar : Bounded true far)
      (hnear : Bounded true near) : Bounded true (fade d far near)
  | split {fades : Bool} (d : Direction) {range : Span ℚ} {inner outer : Sampler ℚ}
      (hstart : 0 ≤ range.start) (hstop : range.stop ≤ 1) (hinner : Bounded fades inner)
      (houter : Bounded false outer) : Bounded fades (split d range inner outer)
  | graph {fades : Bool} (d : Direction) {height less more : Sampler ℚ}
      (hheight : height.AllNodes Usable) (hless : Bounded fades less) (hmore : Bounded fades more) :
      Bounded fades (graph d height less more)

theorem Bounded.usable {fades : Bool} {s : Sampler ℚ} (h : s.Bounded fades) :
    s.AllNodes Usable := by
  have hpositive {x : ℚ} (hx : Scalar.le x 0.0 = false) : 0 < x := by
    rw [Bool.eq_false_iff, Ne, Scalar.le_rat, Scalar.zero_rat] at hx
    exact not_le.mp hx
  induction h with
  | across => exact allNodes_across.mpr trivial
  | down => exact allNodes_down.mpr trivial
  | const hv => exact allNodes_const.mpr trivial
  | noise h =>
    obtain ⟨⟨hx, hy⟩, rfl⟩ := noise?_eq_ok.mp h
    exact allNodes_noise.mpr ⟨hpositive hx, hpositive hy⟩
  | zoom hinner h =>
    obtain ⟨hrange, rfl⟩ := zoom?_eq_ok.mp h
    rw [Bool.eq_false_iff, Ne, Scalar.le_rat] at hrange
    exact allNodes_zoom.mpr ⟨not_le.mp hrange, hinner⟩
  | layered hweights hlayers h ih =>
    obtain ⟨-, rfl⟩ := layered?_eq_ok.mp h
    rw [allNodes_layered, List.forall_mem_map]
    exact ⟨trivial, ih⟩
  | fade d hfar hnear ihf ihn => exact allNodes_fade.mpr ⟨trivial, ihf, ihn⟩
  | split d hstart hstop hinner houter ihi iho => exact allNodes_split.mpr ⟨trivial, ihi, iho⟩
  | graph d hheight hless hmore ihl ihm =>
    exact allNodes_graph.mpr ⟨trivial, hheight, ihl, ihm⟩

variable [NoiseSource ℚ]

/-- Values of such samplers lie in the unit interval. The induction is on how they are made; as long
as there may be fades, the context holds the cell. -/
theorem Bounded.mem_of_bake {fades : Bool} {s : Sampler ℚ} (hs : s.Bounded fades) {ctx : Context}
    {pass : Window} {x y : ℤ} (hxy : pass.contains x y = true)
    (hctx : fades = true → ctx.Holds x y) {baked : BakedSampler ℚ}
    (hbaked : s.bake ctx pass = .ok baked) {v : ℚ} (hv : baked x y = .ok v) : v ∈ unit := by
  obtain ⟨hx, hy⟩ := Bool.and_eq_true_iff.mp hxy
  induction hs generalizing ctx baked v with
  | across =>
    obtain ⟨hlow, hhigh⟩ := (Interval.contains_iff _ x).mp hx
    obtain ⟨f, hf, hcells⟩ := ramp?_rat (hlow.trans_lt hhigh)
    rw [bake, hf] at hbaked
    obtain rfl := Except.ok.inj hbaked
    obtain rfl := Except.ok.inj ((hcells x).symm.trans hv)
    exact (Interval.Holds.of_contains hx).place_mem
  | down =>
    obtain ⟨hlow, hhigh⟩ := (Interval.contains_iff _ y).mp hy
    obtain ⟨f, hf, hcells⟩ := ramp?_rat (hlow.trans_lt hhigh)
    rw [bake, hf] at hbaked
    obtain rfl := Except.ok.inj hbaked
    obtain rfl := Except.ok.inj ((hcells y).symm.trans hv)
    exact (Interval.Holds.of_contains hy).place_mem
  | const hunit =>
    obtain rfl := Except.ok.inj hbaked
    obtain rfl := Except.ok.inj hv
    exact hunit
  | noise h =>
    obtain ⟨-, rfl⟩ := noise?_eq_ok.mp h
    obtain ⟨field, hfield, hbaked⟩ := bind_eq_ok.mp hbaked
    obtain rfl := Except.ok.inj hbaked
    have hread := (noiseOver?_reads hfield hxy).symm.trans hv
    simp only [noiseAt?, bind_eq_ok, pure_eq_ok, Except.ok.injEq] at hread
    obtain ⟨-, -, -, -, -, -, -, -, raw, -, rfl⟩ := hread
    exact unitRange_mem _
  | zoom hinner h =>
    obtain ⟨-, rfl⟩ := zoom?_eq_ok.mp h
    obtain ⟨inner', -, hbaked⟩ := bind_eq_ok.mp hbaked
    obtain rfl := Except.ok.inj hbaked
    obtain ⟨u, -, hv⟩ := bind_eq_ok.mp hv
    obtain ⟨w, -, hv⟩ := bind_eq_ok.mp hv
    obtain rfl := Except.ok.inj hv
    exact clamp_mem w
  | @layered fades layers s hweights hlayers h ih =>
    obtain ⟨⟨-, hguard⟩, rfl⟩ := layered?_eq_ok.mp h
    rw [Scalar.sum_rat, Bool.eq_false_iff, Ne, Scalar.le_rat, Scalar.zero_rat, not_le] at hguard
    rw [Scalar.sum_rat] at hbaked
    obtain ⟨members, hmembers, hbaked⟩ := bind_eq_ok.mp hbaked
    obtain rfl := Except.ok.inj hbaked
    rw [bakeLayers_eq_mapM, mapM_eq_ok, List.forall₂_map_left_iff] at hmembers
    have hshares : members.map Prod.fst =
        (layers.map fun l => (l.1 / (layers.map Prod.fst).sum, l.2)).map Prod.fst := by
      rw [List.map_map]
      refine map_eq_map_of_forall₂ hmembers fun l m hm => ?_
      obtain ⟨b, -, rfl⟩ := map_eq_ok.mp hm
      rfl
    have hmember : ∀ m ∈ members, 0 ≤ m.1 ∧ ∀ v, m.2 x y = .ok v → v ∈ unit := by
      intro m hm
      obtain ⟨l, hl, hlm⟩ := forall₂_exists_mem hmembers hm
      obtain ⟨b, hb, rfl⟩ := map_eq_ok.mp hlm
      exact ⟨div_nonneg (hweights l hl) hguard.le, fun v => ih l hl hctx hb⟩
    have hsum := weighted?_mem hmember hv
    rwa [hshares, sum_shares hguard, Scalar.zero_rat, zero_add] at hsum
  | fade d hfar hnear ihf ihn =>
    obtain ⟨far', hfar', hbaked⟩ := bind_eq_ok.mp hbaked
    obtain ⟨near', hnear', hbaked⟩ := bind_eq_ok.mp hbaked
    obtain rfl := Except.ok.inj hbaked
    obtain ⟨pos, hpos, hv⟩ := bind_eq_ok.mp hv
    obtain rfl := Except.ok.inj ((ctx.toward?_rat d x y).symm.trans hpos)
    obtain ⟨u, hu, hv⟩ := bind_eq_ok.mp hv
    obtain ⟨w, hw, hv⟩ := bind_eq_ok.mp hv
    obtain rfl := Except.ok.inj hv
    exact blend_mem (ihf hctx hfar' hu) (ihn hctx hnear' hw) ((hctx rfl).way_mem d)
  | split d hstart hstop hinner houter ihi iho =>
    obtain ⟨sub, hsub, hbaked⟩ := bind_eq_ok.mp hbaked
    obtain ⟨inner', hinner', hbaked⟩ := bind_eq_ok.mp hbaked
    obtain ⟨outer', houter', hbaked⟩ := bind_eq_ok.mp hbaked
    obtain rfl := Except.ok.inj hbaked
    obtain ⟨pos, hpos, hv⟩ := bind_eq_ok.mp hv
    obtain rfl := Except.ok.inj ((ctx.toward?_rat d x y).symm.trans hpos)
    split_ifs at hv with hin
    · exact ihi (fun hfades => (hctx hfades).splitContext? hstart hstop hin hsub) hinner' hv
    · exact iho (fun hfades => by cases hfades) houter' hv
  | graph d hheight hless hmore ihl ihm =>
    obtain ⟨height', -, hbaked⟩ := bind_eq_ok.mp hbaked
    obtain ⟨heights, hheights, hbaked⟩ := bind_eq_ok.mp hbaked
    obtain ⟨less', hless', hbaked⟩ := bind_eq_ok.mp hbaked
    obtain ⟨more', hmore', hbaked⟩ := bind_eq_ok.mp hbaked
    obtain rfl := Except.ok.inj hbaked
    rw [parted?_reads hheights hxy] at hv
    obtain ⟨skyline, -, hv⟩ := bind_eq_ok.mp hv
    rw [Window.toward?_rat, ok_bind] at hv
    split_ifs at hv
    · exact ihl hctx hless' hv
    · exact ihm hctx hmore' hv

theorem exists_noiseOver?_rat (hnoise : Field.Total ℚ) (world : World) {pass : Window}
    (hpass : pass.isEmpty = false) {scaleX scaleY : ℚ} (hx : 0 < scaleX) (hy : 0 < scaleY)
    (offset : ℚ) (kind : NoiseKind) :
    ∃ field, noiseOver? world pass scaleX scaleY offset kind = .ok field ∧ field.Full ∧
      field.width = pass.columns.count ∧ field.height = pass.rows.count := by
  obtain ⟨hcolumns, hrows⟩ := pass.isEmpty_eq_false_iff.mp hpass
  obtain ⟨field, hfield, hfull, hwidth, hheight⟩ := Field.exists_noise? hnoise
    (Int.sub_pos.mpr hcolumns) (Int.sub_pos.mpr hrows) (fun k _ => ⟨_, Scalar.ofInt?_rat k⟩)
    (fun k _ => ⟨_, Scalar.ofInt?_rat k⟩) kind world.seed
    (pass.columns.start + offset * world.width) (pass.rows.start + offset * world.height)
    (1.0 / scaleX) (1.0 / scaleY)
  refine ⟨field.map (unitRange Scalar.store), ?_, hfull.map _, hwidth, hheight⟩
  simp only [noiseOver?, Scalar.ofInt?_rat, Scalar.divide?_rat hx.ne', Scalar.divide?_rat hy.ne',
    ok_bind, pure_eq_ok]
  exact bind_eq_ok.mpr ⟨field, hfield, rfl⟩

/-- Usable samplers have values at the cells of every pass that is not empty. The induction is on
the tree; it goes down to strips for heights. -/
theorem evaluatesOn_of_usable (hnoise : Field.Total ℚ) {s : Sampler ℚ} (hs : s.AllNodes Usable)
    (ctx : Context) {pass : Window} (hpass : pass.isEmpty = false) : s.EvaluatesOn ctx pass := by
  have htoward (ctx : Context) (d : Direction) (x y : ℤ) : ∃ pos : ℚ, ctx.toward? d x y = .ok pos :=
    ⟨_, ctx.toward?_rat d x y⟩
  induction s generalizing ctx pass with
  | across =>
    obtain ⟨f, hf, hcells⟩ := ramp?_rat (pass.isEmpty_eq_false_iff.mp hpass).1
    exact .across ⟨f, hf, fun n _ => ⟨_, hcells n⟩⟩
  | down =>
    obtain ⟨f, hf, hcells⟩ := ramp?_rat (pass.isEmpty_eq_false_iff.mp hpass).2
    exact .down ⟨f, hf, fun n _ => ⟨_, hcells n⟩⟩
  | unspecified => exact hs.root.elim
  | const v => exact .const v ctx pass
  | layered layers ih =>
    have hall := (allNodes_layered.mp hs).2
    exact .layered fun l hl => ih l hl (hall l hl) ctx hpass
  | zoom range inner ih =>
    obtain ⟨hrange, hinner⟩ := allNodes_zoom.mp hs
    refine .zoom (ih hinner ctx hpass) ?_
    rw [Bool.eq_false_iff, Ne, Scalar.same_rat, Scalar.zero_rat]
    exact (sub_pos.mpr hrange).ne'
  | fade d far near ihf ihn =>
    obtain ⟨-, hfar, hnear⟩ := allNodes_fade.mp hs
    exact .fade (ihf hfar ctx hpass) (ihn hnear ctx hpass)
      fun x y _ => htoward ctx d x y
  | split d range inner outer ihi iho =>
    obtain ⟨-, hinner, houter⟩ := allNodes_split.mp hs
    obtain ⟨sub, hsub⟩ := exists_splitContext?_rat ctx d range
    exact .split hsub (ihi hinner sub hpass) (iho houter sub hpass)
      fun x y _ => htoward ctx d x y
  | graph d height less more ihh ihl ihm =>
    obtain ⟨-, hheight, hless, hmore⟩ := allNodes_graph.mp hs
    have hstrip := strip_nonempty hpass ctx.toWindow d
    exact .graph hpass (ihh hheight ctx hstrip) (ihl hless ctx hpass)
      (ihm hmore ctx hpass) fun x y _ => htoward ctx d x y
  | noise scaleX scaleY offset kind =>
    obtain ⟨hx, hy⟩ := hs.root
    exact .noise (exists_noiseOver?_rat hnoise ctx.world hpass hx hy offset kind)

/-- At the cells of a pass within the context such a sampler has values in the unit interval,
whatever noise is like; where noise has a value everywhere, it is baked and has one at each of
them. -/
theorem bounded_mem_unit {s : Sampler ℚ} (hs : s.Bounded true) {ctx : Context} {pass : Window}
    (hnonempty : pass.isEmpty = false)
    (hwithin : ∀ x y, pass.contains x y = true → ctx.contains x y = true) :
    (∀ baked, s.bake ctx pass = .ok baked → ∀ x y v, pass.contains x y = true →
      baked x y = .ok v → v ∈ unit) ∧
    (Field.Total ℚ → s.EvaluatesOn ctx pass) :=
  ⟨fun _ hbaked x y _ hxy hv => hs.mem_of_bake hxy
      (fun _ => Window.Holds.of_contains (hwithin x y hxy)) hbaked hv,
    fun hnoise => evaluatesOn_of_usable hnoise hs.usable ctx hnonempty⟩

omit [NoiseSource ℚ] in
/-- Noise without bounds, blended with a fade in the right part of a split. -/
theorem bounded_mem_unit_sample : ∃ baked,
    @bake ℚ _ Field.plane (.fade .up (.noise 3 3 0 .fbm)
      (.split .right ⟨1 / 5, 1 / 2⟩ (.fade .left .across (.const (1 / 2))) .down))
      ⟨⟨⟨-1, 6⟩, ⟨2, 5⟩⟩, ⟨7, 9, 1⟩⟩ ⟨⟨0, 6⟩, ⟨3, 5⟩⟩ = .ok baked ∧
    ∀ x y, Window.contains ⟨⟨0, 6⟩, ⟨3, 5⟩⟩ x y = true → ∃ v, baked x y = .ok v ∧ v ∈ unit := by
  have hnoise : noise? (3 : ℚ) 3 0 .fbm = .ok (.noise 3 3 0 .fbm) := by
    refine noise?_eq_ok.mpr ⟨⟨?_, ?_⟩, rfl⟩ <;>
      rw [Bool.eq_false_iff, Ne, Scalar.le_rat] <;> norm_num
  have hinner : Bounded true (.fade .left .across (.const (1 / 2))) :=
    .fade .left .across (.const ⟨by norm_num, by norm_num⟩)
  have hsplit : Bounded true
      (.split .right ⟨1 / 5, 1 / 2⟩ (.fade .left .across (.const (1 / 2))) .down) :=
    .split .right (by norm_num) (by norm_num) hinner .down
  obtain ⟨hrange, hbake⟩ := @bounded_mem_unit Field.plane _ (.fade .up (.noise hnoise) hsplit)
    ⟨⟨⟨-1, 6⟩, ⟨2, 5⟩⟩, ⟨7, 9, 1⟩⟩ ⟨⟨0, 6⟩, ⟨3, 5⟩⟩ rfl (fun x y hxy => by
      rw [Window.contains_iff] at hxy ⊢
      dsimp only at hxy ⊢
      omega)
  obtain ⟨baked, hbaked, hcells⟩ := hbake Field.total_plane
  refine ⟨baked, hbaked, fun x y hxy => ?_⟩
  obtain ⟨v, hv⟩ := hcells x y hxy
  exact ⟨v, hv, hrange baked hbaked x y v hxy hv⟩

end Sampler
end TileWorld
