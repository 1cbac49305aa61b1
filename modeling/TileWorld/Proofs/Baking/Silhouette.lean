import TileWorld.Proofs.Baking.Passes
import TileWorld.Proofs.Region.Toward

/-! The skyline of a graph. The strip of cells that heights are taken on is given by the context and
the range of a pass across the direction, so that all passes with one range across see one skyline,
and each line of cells in the direction crosses it once. -/
namespace TileWorld.Sampler

variable [NoiseSource Float] {ctx : Context} {pass : Window} {d : Direction}
  {height less more : Sampler Float}

/-- A graph over a pass takes `less` at the cells below a skyline, given for each coordinate across
its direction, and `more` at the others. -/
def Parts (ctx : Context) (view : Window) (d : Direction) (height less more : Sampler Float)
    (skyline : ℤ → Float) : Prop :=
  ∃ baked below above, (graph d height less more).bake ctx view = .ok baked ∧
    less.bake ctx view = .ok below ∧ more.bake ctx view = .ok above ∧
    ∀ x y, view.contains x y = true →
      (ctx.Below d (skyline (d.across x y)) x y → baked x y = below x y) ∧
      (¬ctx.Below d (skyline (d.across x y)) x y → baked x y = above x y)

omit [NoiseSource Float] in
theorem exists_toward? (hctx : ctx.Small) {view : Window} (hview : view.Small) {x y : ℤ}
    (hxy : view.contains x y = true) (d : Direction) :
    ∃ pos : Float, ctx.toward? d x y = .ok pos := by
  have hroomy : ctx.Roomy 0 :=
    ⟨hctx.columns.roomy (.inr (Nat.zero_le _)), hctx.rows.roomy (.inr (Nat.zero_le _))⟩
  exact hroomy.exists_toward? d (hview.walked_of_contains hxy) hxy

/-- A skyline of the edge parts every pass of the same range across. -/
theorem parts_of_edgeHeight? (hctx : ctx.Small) {view : Window} (hview : view.Small)
    (hnonempty : (strip ctx.toWindow view d).isEmpty = false) {s : BakedSampler Float}
    (hs : height.bake ctx (strip ctx.toWindow view d) = .ok s) {skyline : ℤ → Float}
    (hskyline : ∀ x y, (strip ctx.toWindow view d).contains x y = true →
      s x y = .ok (skyline (d.across x y)))
    (hless : less.EvaluatesOn ctx view) (hmore : more.EvaluatesOn ctx view) :
    Parts ctx view d height less more skyline := by
  obtain ⟨below, hbelow, -⟩ := hless
  obtain ⟨above, habove, -⟩ := hmore
  obtain ⟨heights, hheights, -⟩ := exists_skyline? hnonempty
    (fun x y hxy => ⟨_, hskyline x y hxy⟩) d
  refine ⟨_, below, above, by rw [bake, hs, ok_bind, hheights, ok_bind, hbelow, ok_bind, habove,
    ok_bind, pure_eq_ok], hbelow, habove, fun x y hxy => ?_⟩
  obtain ⟨u, v, huv, hline⟩ := exists_strip_cell hxy ctx.toWindow d
  have hedge : edgeHeight? s ctx.toWindow d (d.across x y) = .ok (skyline (d.across x y)) := by
    rw [← hline, edgeHeight?_eq huv, hskyline u v huv]
  obtain ⟨pos, hpos⟩ := exists_toward? hctx hview hxy d
  rw [parted?_reads hheights hxy, hedge, ok_bind, hpos, ok_bind, Window.below_iff hpos]
  exact ⟨fun hlt => if_pos hlt, fun hlt => if_neg hlt⟩

/-- A graph is given by a skyline of its heights at the edge of the context, one for each line of
cells in its direction: over all passes of one range across, it takes `less` at the cells below the
skyline and `more` at the others. On a line `less` is taken from the start on, up to one
boundary. -/
theorem graph_silhouette (hctx : ctx.Small) (hwidth : 0 < ctx.width) (hheight : 0 < ctx.height)
    (hnonempty : pass.isEmpty = false)
    (hskyline : height.EvaluatesOn ctx (strip ctx.toWindow pass d)) :
    ∃ skyline : ℤ → Float,
      (∀ x y, (strip ctx.toWindow pass d).contains x y = true →
        height.sample? ctx (strip ctx.toWindow pass d) x y = .ok (skyline (d.across x y))) ∧
      ∀ view : Window, view.Small → view.front d = pass.front d → less.EvaluatesOn ctx view →
        more.EvaluatesOn ctx view → Parts ctx view d height less more skyline ∧
        ∀ x y x' y', view.contains x y = true → view.contains x' y' = true →
          d.across x' y' = d.across x y → d.Behind x' y' x y ∨ ctx.NoFurther d x' y' x y →
          ctx.Below d (skyline (d.across x y)) x y →
          ctx.Below d (skyline (d.across x' y')) x' y' := by
  obtain ⟨s, hs, hcells⟩ := hskyline
  have hheights : ∀ x y, (strip ctx.toWindow pass d).contains x y = true →
      s x y = .ok ((edgeHeight? s ctx.toWindow d (d.across x y)).toOption.getD 0.0) := by
    intro x y hxy
    obtain ⟨v, hv⟩ := hcells x y hxy
    rw [edgeHeight?_eq hxy, hv]
    rfl
  refine ⟨fun n => (edgeHeight? s ctx.toWindow d n).toOption.getD 0.0, fun x y hxy => ?_,
    fun view hview hfront hless hmore => ⟨?_, fun x y x' y' hxy hxy' hline horder hbelow => ?_⟩⟩
  · rw [sample?, hs, ok_bind, hheights x y hxy]
  · have hstrip : strip ctx.toWindow view d = strip ctx.toWindow pass d := strip_congr hfront
    refine parts_of_edgeHeight? hctx hview ?_ (hstrip ▸ hs) (hstrip ▸ hheights) hless hmore
    rw [hstrip]
    exact strip_nonempty hnonempty ctx.toWindow d
  · have hextent : 0 ≤ (ctx.axis d).extent := by
      cases d
      · exact hheight.le
      · exact hheight.le
      · exact hwidth.le
      · exact hwidth.le
    rw [hline]
    refine hbelow.of_noFurther (horder.elim (fun hbehind => ?_) id)
    exact Window.noFurther_of_behind hextent hbehind (exists_toward? hctx hview hxy' d)
      (exists_toward? hctx hview hxy d)

omit [NoiseSource Float] in
/-- Heights that tell how far across and down their pass a cell lies, seen by the whole context and
by one row of it. -/
theorem graph_silhouette_sample : ∃ whole row : BakedSampler Float,
    @bake Float _ everywhere (.graph .up (.fade .right .across .down) (.const 1.0) (.const 0.0))
      ⟨⟨⟨0, 4⟩, ⟨0, 6⟩⟩, ⟨4, 6, 3⟩⟩ ⟨⟨0, 4⟩, ⟨0, 6⟩⟩ = .ok whole ∧
    @bake Float _ everywhere (.graph .up (.fade .right .across .down) (.const 1.0) (.const 0.0))
      ⟨⟨⟨0, 4⟩, ⟨0, 6⟩⟩, ⟨4, 6, 3⟩⟩ ⟨⟨0, 4⟩, ⟨2, 3⟩⟩ = .ok row ∧
    ∀ x, 0 ≤ x → x < 4 → whole x 2 = row x 2 := by
  have hctx : Window.Small ⟨⟨0, 4⟩, ⟨0, 6⟩⟩ := by refine ⟨⟨?_, ?_⟩, ?_, ?_⟩ <;> decide
  have hrow : Window.Small ⟨⟨0, 4⟩, ⟨2, 3⟩⟩ := by refine ⟨⟨?_, ?_⟩, ?_, ?_⟩ <;> decide
  have hstrip : Window.Walked ⟨⟨0, 4⟩, ⟨5, 6⟩⟩ := by
    refine ⟨⟨?_, ?_, ?_⟩, ?_, ?_, ?_⟩ <;> decide
  have hfits : Fits (.fade .right .across .down) ⟨⟨⟨0, 4⟩, ⟨0, 6⟩⟩, ⟨4, 6, 3⟩⟩ :=
    ⟨hctx, by decide, .inl (by decide)⟩
  have hheight := (@Built.serves everywhere (fun _ _ _ => ⟨_, rfl⟩) _
    (.fade .right .across .down) _ hfits _ hstrip).1
  have hconst (v : Float) (ctx : Context) (view : Window) :
      @EvaluatesOn Float _ everywhere (.const v) ctx view := ⟨_, rfl, fun _ _ _ => ⟨v, rfl⟩⟩
  obtain ⟨skyline, -, hviews⟩ := @graph_silhouette everywhere ⟨⟨⟨0, 4⟩, ⟨0, 6⟩⟩, ⟨4, 6, 3⟩⟩
    ⟨⟨0, 4⟩, ⟨0, 6⟩⟩ .up (.fade .right .across .down) (.const 1.0) (.const 0.0) hctx (by decide)
    (by decide) rfl hheight
  obtain ⟨⟨whole, below, above, hwhole, hbelow, habove, hcells⟩, -⟩ :=
    hviews _ hctx rfl (hconst _ _ _) (hconst _ _ _)
  obtain ⟨⟨row, below', above', hrow, hbelow', habove', hcells'⟩, -⟩ :=
    hviews _ hrow rfl (hconst _ _ _) (hconst _ _ _)
  obtain rfl := Except.ok.inj (hbelow.symm.trans hbelow')
  obtain rfl := Except.ok.inj (habove.symm.trans habove')
  refine ⟨whole, row, hwhole, hrow, fun x hx hx' => ?_⟩
  obtain ⟨hless, hmore⟩ := hcells x 2 ((Window.contains_iff _ _ _).mpr ⟨⟨hx, hx'⟩, by decide⟩)
  obtain ⟨hless', hmore'⟩ := hcells' x 2 ((Window.contains_iff _ _ _).mpr ⟨⟨hx, hx'⟩, by decide⟩)
  by_cases hpos : Window.Below ⟨⟨0, 4⟩, ⟨0, 6⟩⟩ .up (skyline (Direction.up.across x 2)) x 2
  · exact (hless hpos).trans (hless' hpos).symm
  · exact (hmore hpos).trans (hmore' hpos).symm

end TileWorld.Sampler
