import TileWorld.Proofs.Number.Exact
import TileWorld.Proofs.World.Bounds

/-! Climates side by side over the width of a world, in exact arithmetic. A cursor runs from left to
right and passes the gap once; the columns on either side of the gap abut. -/
namespace TileWorld
namespace Layout

section Steps
variable {α : Type} [Scalar α]

/-- Where climate number `k` starts when the cursor has come so far. -/
def Spread.start (s : Spread α) (k : Nat) (cursor : α) : α :=
  if k = s.left then cursor + s.gap else cursor

/-- The cursor after climate number `k`. -/
def Spread.next (s : Spread α) (k : Nat) (cursor weight : α) : α :=
  s.start k cursor + (1.0 - s.gap) * weight / s.total

theorem Spread.columns?_cons {s : Spread α} {k : Nat} {cursor weight : α} {rest : List α}
    {columns : List Interval} :
    s.columns? k cursor (weight :: rest) = .ok columns ↔
      ∃ stop, (if rest.isEmpty then .ok s.width
          else Scalar.scale? s.width (s.next k cursor weight)) = .ok stop ∧
        ∃ first, Scalar.scale? s.width (s.start k cursor) = .ok first ∧
          ∃ others, s.columns? (k + 1) (s.next k cursor weight) rest = .ok others ∧
            columns = ⟨first, stop⟩ :: others := by
  rw [columns?]
  cases hrest : rest.isEmpty with
  | false =>
    simp only [Bool.false_eq_true, if_false, bind_eq_ok, pure_eq_ok, Except.ok.injEq,
      @eq_comm _ _ columns]
    rfl
  | true =>
    simp only [if_true, bind_eq_ok, pure_eq_ok, Except.ok.injEq, @eq_comm _ _ columns]
    rfl

theorem Spread.columns?_length {s : Spread α} {k : Nat} {cursor : α} {weights : List α}
    {columns : List Interval} (h : s.columns? k cursor weights = .ok columns) :
    columns.length = weights.length := by
  induction weights generalizing k cursor columns with
  | nil => simp_all [columns?]
  | cons weight rest ih =>
    obtain ⟨stop, -, first, -, others, hothers, rfl⟩ := columns?_cons.mp h
    simp [ih hothers]

theorem spread?_eq_ok {zone : String} {width : Int} {gap : α} {weights : List α}
    {columns : List Interval} :
    spread? zone width gap weights = .ok columns ↔ Scalar.le (Scalar.sum weights) 0.0 = false ∧
      Spread.columns? ⟨width, gap, Scalar.sum weights, weights.length / 2⟩ 0 0.0 weights =
        .ok columns := by
  simp only [spread?]
  cases htotal : Scalar.le (Scalar.sum weights) 0.0 with
  | false => simp
  | true => simp

end Steps

/-- Columns on both sides of a strip that abut from the left edge to the strip, and from the strip
to the right edge. The first half of them lies to the left. -/
structure Flanks (width : Int) (strip : Interval) (columns : List Interval) : Prop where
  left : Interval.Abuts 0 strip.start (columns.take (columns.length / 2))
  strip_le : strip.start ≤ strip.stop
  right : Interval.Abuts strip.stop width (columns.drop (columns.length / 2))

namespace Flanks
variable {width : Int} {strip : Interval} {columns : List Interval}

theorem mem_split {c : Interval} (hc : c ∈ columns) :
    c ∈ columns.take (columns.length / 2) ∨ c ∈ columns.drop (columns.length / 2) := by
  rw [← List.mem_append, List.take_append_drop]
  exact hc

theorem bounds (h : Flanks width strip columns) {c : Interval} (hc : c ∈ columns) :
    0 ≤ c.start ∧ c.start ≤ c.stop ∧ c.stop ≤ width := by
  have hstrip := h.strip_le
  have hleft := h.left.le
  have hright := h.right.le
  rcases mem_split hc with hc | hc
  · obtain ⟨h₁, h₂, h₃⟩ := h.left.bounds hc
    exact ⟨h₁, h₂, by omega⟩
  · obtain ⟨h₁, h₂, h₃⟩ := h.right.bounds hc
    exact ⟨by omega, h₂, h₃⟩

theorem pairwise (h : Flanks width strip columns) :
    columns.Pairwise fun c c' => c.stop ≤ c'.start := by
  rw [← List.take_append_drop (columns.length / 2) columns, List.pairwise_append]
  refine ⟨h.left.pairwise, h.right.pairwise, fun c hc c' hc' => ?_⟩
  have hleft := (h.left.bounds hc).2.2
  have hright := (h.right.bounds hc').1
  have hstrip := h.strip_le
  omega

theorem getLast (h : Flanks width strip columns) (hne : columns ≠ []) :
    (columns.getLast hne).stop = width := by
  have hhalf : columns.length / 2 < columns.length :=
    Nat.div_lt_self (List.length_pos_iff.mpr hne) one_lt_two
  have hdrop : columns.drop (columns.length / 2) ≠ [] := by
    simpa [List.drop_eq_nil_iff] using hhalf
  rw [← List.getLast_drop hdrop]
  exact h.right.getLast hdrop

end Flanks

namespace Spread
variable {s : Spread ℚ} {k : Nat} {cursor : ℚ} {weights : List ℚ} {columns : List Interval}

end Spread

end Layout

namespace Generator

end Generator
end TileWorld
