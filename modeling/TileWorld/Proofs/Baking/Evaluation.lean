import TileWorld.Proofs.Baking.Strips
import TileWorld.Proofs.Baking.Tree
import TileWorld.Proofs.Noise.Field

/-! Samplers that have a number at every cell of a pass, node by node. A node has one where its
children do, as long as what it looks up itself is there. -/
namespace TileWorld
variable {α : Type}

namespace Interval
variable {β : Type} {i : Interval}

theorem exists_mapM {f : ℤ → Except Fault β} (h : ∀ n, i.contains n = true → ∃ v, f n = .ok v) :
    ∃ values, i.toList.mapM f = .ok values ∧ values.length = i.count := by
  have hvalues : ∀ n ∈ i.toList, ∃ v, f n = .ok v ∧ True := by
    intro n hn
    obtain ⟨v, hv⟩ := h n ((mem_toList i n).mp hn)
    exact ⟨v, hv, trivial⟩
  obtain ⟨values, hmake, hcount, -⟩ := TileWorld.exists_mapM hvalues
  refine ⟨values, hmake, ?_⟩
  rw [hcount, toList, List.length_map, List.length_range]

/-- Values along an interval are read at the places of its numbers. -/
theorem mapM_reads {n : ℤ} (hn : i.contains n = true) {f : ℤ → Except Fault β} {values : List β}
    (h : i.toList.mapM f = .ok values) :
    ∃ k, position? values.toArray.size (n - i.start) = some k ∧ f n = .ok values.toArray[k] := by
  obtain ⟨hlow, hhigh⟩ := (contains_iff i n).mp hn
  have hcount : i.count = (i.stop - i.start).toNat := rfl
  have hplace : (n - i.start).toNat < i.count := by omega
  have hnth : i.toList[(n - i.start).toNat]? = some n := by
    rw [toList, List.getElem?_map, List.getElem?_range hplace, Option.map_some]
    congr 1
    omega
  obtain ⟨v, hv, hread⟩ := forall₂_getElem? (mapM_eq_ok.mp h).flip hnth
  obtain ⟨hlt, hvalue⟩ := List.getElem?_eq_some_iff.mp hv
  refine ⟨_, position?_of_lt (by omega) (by rw [List.size_toArray]; omega), ?_⟩
  rw [hread, ← hvalue]
  rfl

end Interval

namespace Sampler

/-- A skyline has a height for each column or row of its strip. -/
theorem exists_skyline? {baked : BakedSampler α} {w : Window} (hw : w.isEmpty = false)
    (h : ∀ x y, w.contains x y = true → ∃ v, baked x y = .ok v) (d : Direction) :
    ∃ heights, skyline? baked w d = .ok heights ∧
      heights.size = if d.isVertical then w.columns.count else w.rows.count := by
  obtain ⟨hcolumns, hrows⟩ := w.isEmpty_eq_false_iff.mp hw
  have hstart {i : Interval} (hi : i.start < i.stop) : i.contains i.start = true :=
    (Interval.contains_iff i _).mpr ⟨le_rfl, hi⟩
  unfold skyline?
  split_ifs with hd
  · obtain ⟨heights, hmake, hcount⟩ := Interval.exists_mapM fun x hx =>
      h x w.rows.start (Bool.and_eq_true_iff.mpr ⟨hx, hstart hrows⟩)
    exact ⟨heights.toArray, by rw [hmake, ok_bind, pure_eq_ok], by rw [List.size_toArray, hcount]⟩
  · obtain ⟨heights, hmake, hcount⟩ := Interval.exists_mapM fun y hy =>
      h w.columns.start y (Bool.and_eq_true_iff.mpr ⟨hstart hcolumns, hy⟩)
    exact ⟨heights.toArray, by rw [hmake, ok_bind, pure_eq_ok], by rw [List.size_toArray, hcount]⟩

variable [Scalar α]

theorem exists_weighted? {layers : List (α × BakedSampler α)} {x y : ℤ}
    (h : ∀ l ∈ layers, ∃ v, l.2 x y = .ok v) (total : α) :
    ∃ v, weighted? layers x y total = .ok v := by
  induction layers generalizing total with
  | nil => exact ⟨total, rfl⟩
  | cons l rest ih =>
    rw [List.forall_mem_cons] at h
    obtain ⟨v, hv⟩ := h.1
    obtain ⟨u, hu⟩ := ih h.2 (total + v * l.1)
    exact ⟨u, by rw [weighted?, hv, ok_bind, hu]⟩

/-- The height of a skyline for a cell is that of the edge in line with the cell. Below it one
sampler is read, from it on the other. -/
theorem parted?_reads {s : BakedSampler α} {ctx : Context} {pass : Window} {d : Direction}
    {heights : Array α} (h : skyline? s (strip ctx.toWindow pass d) d = .ok heights) {x y : ℤ}
    (hxy : pass.contains x y = true) (less more : BakedSampler α) :
    parted? ctx pass d heights less more x y =
      (edgeHeight? s ctx.toWindow d (d.across x y) >>= fun height =>
        (ctx.toward? d x y >>= fun pos =>
          if Scalar.lt pos height then less x y else more x y)) := by
  obtain ⟨hx, hy⟩ := Bool.and_eq_true_iff.mp hxy
  unfold skyline? strip at h
  obtain ⟨values, hvalues, h⟩ := bind_eq_ok.mp h
  obtain rfl := Except.ok.inj h
  unfold parted? edgeHeight? Direction.across
  split_ifs at hvalues ⊢ with hd
  · obtain ⟨k, hk, hread⟩ := Interval.mapM_reads hx hvalues
    simp only [hk, hread, ok_bind]
  · obtain ⟨k, hk, hread⟩ := Interval.mapM_reads hy hvalues
    simp only [hk, hread, ok_bind]

/-- Division by what is not zero. -/
theorem divide?_of_not_same {y : α} (h : Scalar.same y 0.0 = false) (x : α) :
    Scalar.divide? x y = .ok (x / y) := by
  rw [Scalar.divide?, h]
  rfl

namespace EvaluatesOn
variable [NoiseSource α] {ctx sub : Context} {pass : Window} {d : Direction} {range : Span α}
  {s inner outer far near height less more : Sampler α} {layers : List (α × Sampler α)}

theorem const (v : α) (ctx : Context) (pass : Window) : (const v).EvaluatesOn ctx pass :=
  ⟨_, rfl, fun _ _ _ => ⟨v, rfl⟩⟩

theorem across (h : ∃ f : ℤ → Except Fault α, ramp? pass.columns = .ok f ∧
    ∀ n, pass.columns.contains n = true → ∃ v, f n = .ok v) :
    (Sampler.across : Sampler α).EvaluatesOn ctx pass := by
  obtain ⟨f, hf, hcells⟩ := h
  refine ⟨_, by rw [bake, hf, ok_bind, pure_eq_ok], fun x y hxy => ?_⟩
  exact hcells x (Bool.and_eq_true_iff.mp hxy).1

theorem down (h : ∃ f : ℤ → Except Fault α, ramp? pass.rows = .ok f ∧
    ∀ n, pass.rows.contains n = true → ∃ v, f n = .ok v) :
    (Sampler.down : Sampler α).EvaluatesOn ctx pass := by
  obtain ⟨f, hf, hcells⟩ := h
  refine ⟨_, by rw [bake, hf, ok_bind, pure_eq_ok], fun x y hxy => ?_⟩
  exact hcells y (Bool.and_eq_true_iff.mp hxy).2

theorem layered (h : ∀ l ∈ layers, l.2.EvaluatesOn ctx pass) :
    (layered layers).EvaluatesOn ctx pass := by
  have hbake : ∀ l ∈ layers, ∃ b, (l.1, ·) <$> l.2.bake ctx pass = .ok b ∧
      ∀ x y, pass.contains x y = true → ∃ v, b.2 x y = .ok v := by
    intro l hl
    obtain ⟨baked, hbaked, hcells⟩ := h l hl
    exact ⟨(l.1, baked), by rw [hbaked]; rfl, hcells⟩
  obtain ⟨baked, hbaked, -, hcells⟩ := exists_mapM hbake
  refine ⟨_, by rw [bake, bakeLayers_eq_mapM, hbaked, ok_bind, pure_eq_ok], fun x y hxy => ?_⟩
  exact exists_weighted? (fun b hb => hcells b hb x y hxy) 0.0

theorem zoom (hinner : inner.EvaluatesOn ctx pass)
    (hlength : Scalar.same range.length 0.0 = false) :
    (zoom range inner).EvaluatesOn ctx pass := by
  obtain ⟨baked, hbaked, hcells⟩ := hinner
  refine ⟨_, by rw [bake, hbaked, ok_bind, pure_eq_ok], fun x y hxy => ?_⟩
  obtain ⟨v, hv⟩ := hcells x y hxy
  simp only [hv, ok_bind, divide?_of_not_same hlength, pure_eq_ok]
  exact ⟨_, rfl⟩

theorem fade (hfar : far.EvaluatesOn ctx pass) (hnear : near.EvaluatesOn ctx pass)
    (htoward : ∀ x y, pass.contains x y = true → ∃ pos : α, ctx.toward? d x y = .ok pos) :
    (fade d far near).EvaluatesOn ctx pass := by
  obtain ⟨far', hfar', hfarCells⟩ := hfar
  obtain ⟨near', hnear', hnearCells⟩ := hnear
  refine ⟨_, by rw [bake, hfar', ok_bind, hnear', ok_bind, pure_eq_ok], fun x y hxy => ?_⟩
  obtain ⟨pos, hpos⟩ := htoward x y hxy
  obtain ⟨u, hu⟩ := hfarCells x y hxy
  obtain ⟨v, hv⟩ := hnearCells x y hxy
  simp only [hpos, hu, hv, ok_bind, pure_eq_ok]
  exact ⟨_, rfl⟩

theorem split (hsub : splitContext? ctx d range = .ok sub) (hinner : inner.EvaluatesOn sub pass)
    (houter : outer.EvaluatesOn sub pass)
    (htoward : ∀ x y, pass.contains x y = true → ∃ pos : α, ctx.toward? d x y = .ok pos) :
    (split d range inner outer).EvaluatesOn ctx pass := by
  obtain ⟨inner', hinner', hinnerCells⟩ := hinner
  obtain ⟨outer', houter', houterCells⟩ := houter
  refine ⟨_, by rw [bake, hsub, ok_bind, hinner', ok_bind, houter', ok_bind, pure_eq_ok],
    fun x y hxy => ?_⟩
  obtain ⟨pos, hpos⟩ := htoward x y hxy
  simp only [hpos, ok_bind]
  split_ifs
  · exact hinnerCells x y hxy
  · exact houterCells x y hxy

theorem graph (hnonempty : pass.isEmpty = false)
    (hheight : height.EvaluatesOn ctx (strip ctx.toWindow pass d))
    (hless : less.EvaluatesOn ctx pass) (hmore : more.EvaluatesOn ctx pass)
    (htoward : ∀ x y, pass.contains x y = true → ∃ pos : α, ctx.toward? d x y = .ok pos) :
    (graph d height less more).EvaluatesOn ctx pass := by
  obtain ⟨height', hheight', hheightCells⟩ := hheight
  obtain ⟨less', hless', hlessCells⟩ := hless
  obtain ⟨more', hmore', hmoreCells⟩ := hmore
  obtain ⟨heights, hheights, -⟩ :=
    exists_skyline? (strip_nonempty hnonempty ctx.toWindow d) hheightCells d
  refine ⟨_, by rw [bake, hheight', ok_bind, hheights, ok_bind, hless', ok_bind, hmore', ok_bind,
    pure_eq_ok], fun x y hxy => ?_⟩
  obtain ⟨u, v, huv, hline⟩ := exists_strip_cell hxy ctx.toWindow d
  obtain ⟨skyline, hskyline⟩ := hheightCells u v huv
  obtain ⟨pos, hpos⟩ := htoward x y hxy
  rw [parted?_reads hheights hxy, ← hline, edgeHeight?_eq huv, hskyline, ok_bind, hpos, ok_bind]
  split_ifs
  · exact hlessCells x y hxy
  · exact hmoreCells x y hxy

theorem noise {scaleX scaleY offset : α} {kind : NoiseKind} (h : ∃ field,
    noiseOver? ctx.world pass scaleX scaleY offset kind = .ok field ∧ field.Full ∧
      field.width = pass.columns.count ∧ field.height = pass.rows.count) :
    (noise scaleX scaleY offset kind).EvaluatesOn ctx pass := by
  obtain ⟨field, hfield, hfull, hwidth, hheight⟩ := h
  refine ⟨_, by rw [bake, hfield, ok_bind, pure_eq_ok], fun x y hxy => ?_⟩
  obtain ⟨⟨hleft, hright⟩, htop, hbottom⟩ := (Window.contains_iff pass x y).mp hxy
  unfold Interval.count Interval.extent at hwidth hheight
  exact hfull.exists_get? (by omega) (by omega) (by omega) (by omega)

end EvaluatesOn
end Sampler
end TileWorld
