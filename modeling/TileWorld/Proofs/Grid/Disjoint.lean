import TileWorld.Grid.View
import TileWorld.Proofs.Grid.Writes

/-! Passes over views of one grid that do not overlap: none sees what another writes, so that their
order has no say, and together they do what one pass over the cells of all of them does. -/
namespace TileWorld

/-- Windows that share a cell overlap. -/
theorem Window.overlaps_of_contains {w v : Window} {x y : Int} (hw : w.contains x y = true)
    (hv : v.contains x y = true) : w.overlaps v = true := by
  rw [contains_iff] at hw hv
  simp only [overlaps, Bool.and_eq_true, decide_eq_true_iff]
  omega

namespace Grid
variable {f : Rule} {g g' : Grid} {x y : Int}

/-- Passes over views one after another, each made whether or not those before it failed, with the
faults of those that did. -/
def updateViews : List (View × Rule) → Grid → Grid × List (Option Fault)
  | [], g => (g, [])
  | (view, f) :: rest, g =>
    let (g, fault) := g.updateIn f view.window
    let (g, faults) := updateViews rest g
    (g, fault :: faults)

/-- Views of one grid that have no cell in common. -/
def Disjoint (passes : List (View × Rule)) : Prop :=
  passes.Pairwise fun p q => ∀ x y, p.1.window.contains x y = true →
    q.1.window.contains x y = false

theorem disjoint_of_overlaps {passes : List (View × Rule)} {source : Nat}
    (hsource : ∀ p ∈ passes, p.1.source = source)
    (h : passes.Pairwise fun p q => p.1.overlaps q.1 = false) : Disjoint passes := by
  refine h.imp_of_mem fun {p q} hp hq hpq x y hx => ?_
  by_contra hy
  rw [Bool.not_eq_false] at hy
  have hsame : (p.1.source == q.1.source) = true := by
    rw [hsource p hp, hsource q hq, beq_self_eq_true]
  rw [View.overlaps, hsame, Window.overlaps_of_contains hx hy] at hpq
  cases hpq

/-- Views apart are each swept as if alone: cells of a view hold what its own pass makes of them,
cells of no view are kept, and each pass fails as it would alone. -/
theorem updateViews_spec {passes : List (View × Rule)} (h : Disjoint passes) (g : Grid) :
    (∀ p ∈ passes, SameOn (fun x y => p.1.window.contains x y = true)
        (g.updateIn p.2 p.1.window).1 (updateViews passes g).1) ∧
      SameOn (fun x y => ∀ p ∈ passes, p.1.window.contains x y = false) g
        (updateViews passes g).1 ∧
      (updateViews passes g).2 = passes.map fun p => (g.updateIn p.2 p.1.window).2 := by
  induction passes generalizing g with
  | nil => exact ⟨by simp, SameOn.refl _ g, rfl⟩
  | cons p rest ih =>
    obtain ⟨hfirst, hrest⟩ := List.pairwise_cons.mp h
    obtain ⟨view, f⟩ := p
    -- the pass over the first view, which the others neither see nor undo
    have hout := update_sameOn f view.window.cells g
    simp only [Window.mem_cells, Bool.not_eq_true] at hout
    obtain ⟨hothers, hnone, hfaults⟩ := ih hrest (g.updateIn f view.window).1
    have hsame (q : View × Rule) (hq : q ∈ rest) :
        SameOn (fun x y => q.1.window.contains x y = true) (g.updateIn q.2 q.1.window).1
            ((g.updateIn f view.window).1.updateIn q.2 q.1.window).1 ∧
          ((g.updateIn f view.window).1.updateIn q.2 q.1.window).2 =
            (g.updateIn q.2 q.1.window).2 := by
      refine update_sameOn_cells (fun x y hxy => (Window.mem_cells _ x y).mp hxy)
        (hout.mono fun x y hx => ?_)
      by_contra hy
      rw [Bool.not_eq_false] at hy
      rw [hfirst q hq x y hy] at hx
      cases hx
    refine ⟨?_, ?_, ?_⟩
    · intro q hq
      rcases List.mem_cons.mp hq with rfl | hq
      · exact hnone.mono fun x y hx q hq => hfirst q hq x y hx
      · exact (hsame q hq).1.trans (hothers q hq)
    · refine (hout.mono fun x y hx => hx _ List.mem_cons_self).trans
        (hnone.mono fun x y hx q hq => hx q (List.mem_cons_of_mem _ hq))
    · have hmap := List.map_congr_left fun q hq => (hsame q hq).2
      exact congrArg₂ List.cons rfl (hfaults.trans hmap)

theorem Disjoint.perm {passes passes' : List (View × Rule)} (h : Disjoint passes)
    (hperm : passes'.Perm passes) : Disjoint passes' := by
  refine (hperm.pairwise_iff fun {p q} hpq x y hq => ?_).mpr h
  by_contra hp
  rw [Bool.not_eq_false] at hp
  rw [hpq x y hp] at hq
  cases hq

/-- The order of passes over views apart has no say. -/
theorem updateViews_perm {passes passes' : List (View × Rule)} (h : Disjoint passes)
    (hperm : passes'.Perm passes) (g : Grid) :
    (updateViews passes' g).1 = (updateViews passes g).1 := by
  obtain ⟨hviews, hnone, -⟩ := updateViews_spec h g
  obtain ⟨hviews', hnone', -⟩ := updateViews_spec (h.perm hperm) g
  have hshape := (hnone.mono fun _ _ hno => hno.elim).symm.trans
    (hnone'.mono fun _ _ (hno : False) => hno.elim)
  refine SameOn.eq ⟨hshape.cellType, hshape.width, hshape.height, hshape.tracked, fun x y _ => ?_⟩
  by_cases hxy : ∃ p ∈ passes, p.1.window.contains x y = true
  · obtain ⟨p, hp, hxy⟩ := hxy
    exact ((hviews p hp).symm.trans (hviews' p (hperm.mem_iff.mpr hp))).kept x y hxy
  · simp only [not_exists, not_and, Bool.not_eq_true] at hxy
    have hkept := hnone.symm.kept x y hxy
    have hkept' := hnone'.kept x y fun p hp => hxy p (hperm.mem_iff.mp hp)
    exact ⟨hkept'.1.trans hkept.1, hkept'.2.trans hkept.2⟩

/-- Passes of one rule over views apart that cover a grid do what a pass over all of it does. -/
theorem updateViews_eq_updateAll {passes : List (View × Rule)} (h : Disjoint passes)
    (hviews : ∀ p ∈ passes, g.Holds p.1.window ∧ p.2 = f)
    (hcover : ∀ x y, g.window.contains x y = true →
      ∃ p ∈ passes, p.1.window.contains x y = true) :
    ((∀ fault ∈ (updateViews passes g).2, fault = none) ↔ (g.updateAll f).2 = none) ∧
      ((g.updateAll f).2 = none → (updateViews passes g).1 = (g.updateAll f).1) := by
  obtain ⟨hparts, hnone, hfaults⟩ := updateViews_spec h g
  have hwhole : (g.updateAll f).2 = none ↔ ∀ p ∈ passes, (g.updateIn p.2 p.1.window).2 = none := by
    simp only [updateAll, updateIn, update_fault_eq_none (Window.nodup_cells _), Window.mem_cells]
    constructor
    · intro hall p hp x y hxy
      obtain ⟨hholds, hrule⟩ := hviews p hp
      rw [hrule]
      exact hall x y (hholds.window_contains hxy)
    · intro hall x y hxy
      obtain ⟨p, hp, hin⟩ := hcover x y hxy
      obtain ⟨-, hrule⟩ := hviews p hp
      rw [← hrule]
      exact hall p hp x y hin
  refine ⟨?_, fun hfault => ?_⟩
  · rw [hfaults, hwhole, List.forall_mem_map]
  · have hshape := (hnone.mono fun _ _ (hno : False) => hno.elim).symm.trans
      ((update_sameOn f g.window.cells g).mono fun _ _ hno => hno.elim)
    refine (SameOn.eq ⟨hshape.cellType, hshape.width, hshape.height, hshape.tracked,
      fun x y _ => ?_⟩).symm
    by_cases hxy : g.window.contains x y = true
    · obtain ⟨p, hp, hin⟩ := hcover x y hxy
      obtain ⟨-, hrule⟩ := hviews p hp
      have hpart := update_redrawn p.1.window.nodup_cells (hwhole.mp hfault p hp)
        ((Window.mem_cells _ x y).mpr hin)
      have hall := update_redrawn g.window.nodup_cells hfault ((Window.mem_cells _ x y).mpr hxy)
      rw [hrule] at hpart
      obtain ⟨hcell, hwrites⟩ := hpart.kept hall
      obtain ⟨hcell', hwrites'⟩ := (hparts p hp).kept x y hin
      rw [hrule] at hcell' hwrites'
      exact ⟨hcell.trans hcell'.symm, hwrites.trans hwrites'.symm⟩
    · have hout : ∀ p ∈ passes, p.1.window.contains x y = false := by
        intro p hp
        by_contra hin
        rw [Bool.not_eq_false] at hin
        exact hxy ((hviews p hp).1.window_contains hin)
      obtain ⟨hcell, hwrites⟩ := hnone.kept x y hout
      obtain ⟨hcell', hwrites'⟩ := (update_sameOn f g.window.cells g).kept x y
        (by rwa [Window.mem_cells])
      exact ⟨hcell'.trans hcell.symm, hwrites'.trans hwrites.symm⟩

/-- Passes over views of a grid that do not overlap give the same grid and the same faults in every
order, and if the views cover the grid, passes of one rule do what its pass over the grid does. -/
theorem views_apart_independent {passes passes' : List (View × Rule)} {source : Nat}
    (hviews : ∀ p ∈ passes, p.1.source = source ∧ g.view? p.1.window = .ok p.1.window)
    (hapart : passes.Pairwise fun p q => p.1.overlaps q.1 = false)
    (horder : passes'.Perm passes) :
    (updateViews passes' g).1 = (updateViews passes g).1 ∧
      (updateViews passes' g).2 = passes'.map (fun p => (g.updateIn p.2 p.1.window).2) ∧
      ∀ f, (∀ p ∈ passes, p.2 = f) →
        (∀ x y : Int, 0 ≤ x ∧ x < g.width ∧ 0 ≤ y ∧ y < g.height →
          ∃ p ∈ passes, p.1.window.contains x y = true) →
        ((∀ fault ∈ (updateViews passes' g).2, fault = none) ↔ (g.updateAll f).2 = none) ∧
          ((g.updateAll f).2 = none → (updateViews passes' g).1 = (g.updateAll f).1) := by
  have hdisjoint := disjoint_of_overlaps (fun p hp => (hviews p hp).1) hapart
  have hdisjoint' := hdisjoint.perm horder
  refine ⟨updateViews_perm hdisjoint horder g, (updateViews_spec hdisjoint' g).2.2,
    fun f hrule hcover => updateViews_eq_updateAll hdisjoint' (fun p hp => ?_) fun x y hxy => ?_⟩
  · have hp := horder.mem_iff.mp hp
    exact ⟨(view?_eq_ok.mp (hviews p hp).2).1, hrule p hp⟩
  · obtain ⟨p, hp, hin⟩ := hcover x y ((window_contains g x y).mp hxy)
    exact ⟨p, horder.mem_iff.mpr hp, hin⟩

/-- A grid of three columns and two rows that counts its writes. -/
def sampleGrid : Grid :=
  ⟨.uint16, 3, 2, Vector.replicate 6 (.int 0), some (Vector.replicate 6 0)⟩

def sampleRule : Rule := fun x y _ => .ok (.paint (.int (x + y)))

/-- Two views of it side by side. -/
def sampleViews : List (View × Rule) :=
  [(⟨0, ⟨⟨0, 1⟩, ⟨0, 2⟩⟩⟩, sampleRule), (⟨0, ⟨⟨1, 3⟩, ⟨0, 2⟩⟩⟩, sampleRule)]

theorem views_apart_independent_sample : (sampleGrid.updateAll sampleRule).2 = none ∧
    (updateViews sampleViews.reverse sampleGrid).1 = (sampleGrid.updateAll sampleRule).1 := by
  have hfault : (sampleGrid.updateAll sampleRule).2 = none := rfl
  have hviews : ∀ p ∈ sampleViews,
      p.1.source = 0 ∧ sampleGrid.view? p.1.window = .ok p.1.window :=
    List.forall_mem_cons.mpr ⟨⟨rfl, rfl⟩, List.forall_mem_cons.mpr ⟨⟨rfl, rfl⟩, by simp⟩⟩
  have hapart : sampleViews.Pairwise fun p q => p.1.overlaps q.1 = false := by decide
  obtain ⟨-, -, hall⟩ := views_apart_independent hviews hapart (List.reverse_perm _)
  refine ⟨hfault, (hall sampleRule (by simp [sampleViews]) fun x y hxy => ?_).2 hfault⟩
  have hx : x < 3 := hxy.2.1
  have hy : y < 2 := hxy.2.2.2
  simp only [sampleViews, List.exists_mem_cons_iff, Window.contains_iff]
  omega

end Grid
end TileWorld
