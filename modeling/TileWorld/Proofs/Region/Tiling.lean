import Mathlib.Tactic
import TileWorld.Region.Interval

/-! Rows of intervals that cover a stretch of integers end to end, without gaps or overlaps. -/
namespace TileWorld.Interval

/-- Each interval starts where the one before it stops, from `top` to `bottom`. -/
def Abuts : Int → Int → List Interval → Prop
  | top, bottom, [] => top = bottom
  | top, bottom, r :: rest => r.start = top ∧ r.start ≤ r.stop ∧ Abuts r.stop bottom rest

/-- Each interval starts where the one before it stops, from `top` to `bottom`, and none is empty. -/
def Tiles : Int → Int → List Interval → Prop
  | top, bottom, [] => top = bottom
  | top, bottom, r :: rest => r.start = top ∧ r.start < r.stop ∧ Tiles r.stop bottom rest

/-- Intervals of which one stops before the other starts. -/
def Apart (i j : Interval) : Prop := i.stop ≤ j.start ∨ j.stop ≤ i.start

theorem Apart.symm {i j : Interval} (h : i.Apart j) : j.Apart i := Or.symm h

/-- No integer lies in two intervals that are apart. -/
theorem Apart.contains {i j : Interval} (h : i.Apart j) {n : Int} (hi : i.contains n = true) :
    j.contains n = false := by
  rw [contains_iff] at hi
  rw [Bool.eq_false_iff, ne_eq, contains_iff]
  unfold Apart at h
  omega

namespace Abuts
variable {top bottom : Int} {rows : List Interval}

theorem le (h : Abuts top bottom rows) : top ≤ bottom := by
  induction rows generalizing top with
  | nil => exact le_of_eq h
  | cons r rest ih =>
    obtain ⟨rfl, hle, hrest⟩ := h
    have := ih hrest
    omega

theorem bounds (h : Abuts top bottom rows) {r : Interval} (hr : r ∈ rows) :
    top ≤ r.start ∧ r.start ≤ r.stop ∧ r.stop ≤ bottom := by
  induction rows generalizing top with
  | nil => simp at hr
  | cons r' rest ih =>
    obtain ⟨rfl, hle, hrest⟩ := h
    rcases List.mem_cons.mp hr with rfl | hr
    · exact ⟨le_rfl, hle, hrest.le⟩
    · obtain ⟨h₁, h₂, h₃⟩ := ih hrest hr
      exact ⟨by omega, h₂, h₃⟩

/-- Later intervals start at or after the stop of earlier ones. -/
theorem pairwise (h : Abuts top bottom rows) : rows.Pairwise fun r r' => r.stop ≤ r'.start := by
  induction rows generalizing top with
  | nil => exact List.Pairwise.nil
  | cons r rest ih =>
    obtain ⟨rfl, hle, hrest⟩ := h
    exact List.Pairwise.cons (fun r' hr' => (hrest.bounds hr').1) (ih hrest)

theorem exists_contains (h : Abuts top bottom rows) {n : Int} (hn : top ≤ n) (hn' : n < bottom) :
    ∃ r ∈ rows, r.contains n = true := by
  induction rows generalizing top with
  | nil =>
    have : top = bottom := h
    omega
  | cons r rest ih =>
    obtain ⟨rfl, hle, hrest⟩ := h
    by_cases hr : n < r.stop
    · exact ⟨r, List.mem_cons_self, (contains_iff r n).mpr ⟨hn, hr⟩⟩
    · obtain ⟨r', hr', hc⟩ := ih hrest (by omega)
      exact ⟨r', List.mem_cons_of_mem r hr', hc⟩

theorem getLast (h : Abuts top bottom rows) (hne : rows ≠ []) : (rows.getLast hne).stop = bottom := by
  induction rows generalizing top with
  | nil => exact absurd rfl hne
  | cons r rest ih =>
    obtain ⟨rfl, hle, hrest⟩ := h
    cases rest with
    | nil => exact hrest
    | cons r' rest =>
      rw [List.getLast_cons (List.cons_ne_nil r' rest)]
      exact ih hrest (List.cons_ne_nil r' rest)

end Abuts

namespace Tiles
variable {top bottom : Int} {rows : List Interval}

theorem abuts (h : Tiles top bottom rows) : Abuts top bottom rows := by
  induction rows generalizing top with
  | nil => exact h
  | cons r rest ih =>
    obtain ⟨hstart, hpos, hrest⟩ := h
    exact ⟨hstart, hpos.le, ih hrest⟩

theorem bounds (h : Tiles top bottom rows) {r : Interval} (hr : r ∈ rows) :
    top ≤ r.start ∧ r.start < r.stop ∧ r.stop ≤ bottom := by
  induction rows generalizing top with
  | nil => simp at hr
  | cons r' rest ih =>
    obtain ⟨rfl, hpos, hrest⟩ := h
    rcases List.mem_cons.mp hr with rfl | hr
    · exact ⟨le_rfl, hpos, hrest.abuts.le⟩
    · obtain ⟨h₁, h₂, h₃⟩ := ih hrest hr
      exact ⟨by omega, h₂, h₃⟩

/-- Every integer of the stretch lies in exactly one of the intervals. -/
theorem existsUnique (h : Tiles top bottom rows) {n : Int} (hn : top ≤ n) (hn' : n < bottom) :
    ∃! k : Nat, ∃ r, rows[k]? = some r ∧ r.contains n = true := by
  induction rows generalizing top with
  | nil =>
    have : top = bottom := h
    omega
  | cons r rest ih =>
    obtain ⟨rfl, hpos, hrest⟩ := h
    by_cases hr : n < r.stop
    · refine ⟨0, ⟨r, rfl, (contains_iff r n).mpr ⟨hn, hr⟩⟩, ?_⟩
      rintro (_ | k) ⟨r', hk, hc⟩
      · rfl
      · have := (hrest.bounds (List.mem_of_getElem? hk)).1
        have := (contains_iff r' n).mp hc
        omega
    · obtain ⟨k, hk, hunique⟩ := ih hrest (by omega)
      refine ⟨k + 1, hk, ?_⟩
      rintro (_ | j) ⟨r', hj, hc⟩
      · obtain rfl : r = r' := Option.some.inj hj
        have := (contains_iff r n).mp hc
        omega
      · exact congrArg (· + 1) (hunique j ⟨r', hj, hc⟩)

end Tiles
end TileWorld.Interval
