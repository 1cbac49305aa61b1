import TileWorld.Proofs.Number.Shares
import TileWorld.Proofs.World.Climates

/-! Which layouts there is room for. Zones can be stacked when each but the last takes a row or more
and leaves one to the last, and climates can be spread when their weights have a positive total.
Nothing else can go wrong in laying them out: every quotient has a divisor, every share is finite and
every number of cells is an integer. -/
namespace TileWorld
namespace Layout

section Stack
variable {α : Type} [Scalar α] {height top : Int}

/-- Each share of the height but the last comes to a row or more, and all of them together leave one,
from row `top` on. -/
def Stackable (height top : Int) (shares : List α) : Prop :=
  ∃ rows : List Int, List.Forall₂ (fun share n => Scalar.scale? height share = .ok n ∧ 1 ≤ n)
    shares.dropLast rows ∧ top + rows.sum < height

theorem exists_stack?_iff {zones : List (String × α)} (hne : zones ≠ []) :
    (∃ rows, stack? height top zones = .ok rows) ↔
      Stackable height top (zones.map Prod.snd) := by
  induction zones generalizing top with
  | nil => exact absurd rfl hne
  | cons zone rest ih =>
    obtain ⟨name, share⟩ := zone
    cases rest with
    | nil =>
      constructor
      · rintro ⟨rows, h⟩
        obtain ⟨n, others, hn, hpos, -⟩ := stack?_cons.mp h
        obtain rfl : height - top = n := Except.ok.inj hn
        exact ⟨[], .nil, by rw [List.sum_nil]; omega⟩
      · rintro ⟨rows, hrows, hlt⟩
        obtain rfl : rows = [] := List.forall₂_nil_left_iff.mp hrows
        rw [List.sum_nil] at hlt
        exact ⟨_, stack?_cons.mpr ⟨height - top, [], rfl, by omega, rfl, rfl⟩⟩
    | cons next rest =>
      constructor
      · rintro ⟨rows, h⟩
        obtain ⟨n, others, hn, hpos, hothers, -⟩ := stack?_cons.mp h
        obtain ⟨rows, hrows, hlt⟩ := (ih (List.cons_ne_nil next rest)).mp ⟨others, hothers⟩
        exact ⟨n :: rows, .cons ⟨hn, hpos⟩ hrows, by rw [List.sum_cons]; omega⟩
      · rintro ⟨rows, hrows, hlt⟩
        obtain ⟨n, later, ⟨hn, hpos⟩, hlater, rfl⟩ := List.forall₂_cons_left_iff.mp hrows
        rw [List.sum_cons] at hlt
        obtain ⟨others, hothers⟩ := (@ih (top + n) (List.cons_ne_nil next rest)).mpr
          ⟨later, hlater, by omega⟩
        exact ⟨_, stack?_cons.mpr ⟨n, others, hn, hpos, hothers, rfl⟩⟩

/-- Zones whose shares come to integers are refused for the height of one of them only. -/
theorem stack?_eq_error {zones : List (String × α)} {e : Fault}
    (hscale : ∀ zone ∈ zones, ∃ n, Scalar.scale? height zone.2 = .ok n)
    (h : stack? height top zones = .error e) : ∃ name, e = .settings (.emptyZone name) := by
  induction zones generalizing top with
  | nil => cases h
  | cons zone rest ih =>
    obtain ⟨name, share⟩ := zone
    rw [List.forall_mem_cons] at hscale
    have hstep (n : Int) (h : (if n ≤ 0 then throw (Fault.settings (.emptyZone name)) else
        stack? height (top + n) rest >>= fun others => pure (⟨top, top + n⟩ :: others)) = .error e) :
        ∃ name, e = .settings (.emptyZone name) := by
      split_ifs at h with hn
      · exact ⟨name, (Except.error.inj h).symm⟩
      · rcases bind_eq_error.mp h with hrest | ⟨others, -, h⟩
        · exact ih hscale.2 hrest
        · cases h
    obtain ⟨n, hn⟩ := hscale.1
    rw [stack?] at h
    cases hrest : rest.isEmpty with
    | true => exact hstep (height - top) (by simpa [hrest] using h)
    | false => exact hstep n (by simpa [hrest, hn] using h)

end Stack

section Spread
open Double
variable {width : Int} {gap : Float} {weights : List Float}

/-- A width of integers that are doubles, shared among weights with a positive total. -/
structure Spread.Apt (s : Spread Float) (weights : List Float) : Prop where
  width : 0 ≤ s.width ∧ s.width ≤ 2 ^ 53
  gap : Scalar.IsShare s.gap
  total : Scalar.lt 0.0 s.total = true
  weights : ∀ w ∈ weights, Weighs w ∧ Scalar.le w s.total = true

/-- Every weight gets a share of what the gap leaves. -/
theorem Spread.Apt.isShare {s : Spread Float} (hs : s.Apt weights) {w : Float} (hw : w ∈ weights) :
    Scalar.IsShare ((1.0 - s.gap) * w / s.total) := by
  obtain ⟨hweighs, hle⟩ := hs.weights w hw
  obtain ⟨hshare, hshare_le⟩ := hweighs.share (isShare_one_sub hs.gap)
  exact isShare_div hshare hs.total (scalar_le_trans hshare_le hle)

/-- Wherever the cursor has come to, columns can be given to the rest of the weights. -/
theorem Spread.exists_columns? {s : Spread Float} {k : Nat} {cursor : Float}
    (hs : s.Apt weights) (hcursor : Counts cursor) :
    ∃ columns, s.columns? k cursor weights = .ok columns := by
  induction weights generalizing k cursor with
  | nil => exact ⟨[], rfl⟩
  | cons w rest ih =>
    have hstart : Counts (s.start k cursor) := by
      unfold start
      split_ifs
      · exact hcursor.add hs.gap
      · exact hcursor
    have hnext : Counts (s.next k cursor w) := hstart.add (hs.isShare List.mem_cons_self)
    have hrest : s.Apt rest :=
      { hs with weights := fun v hv => hs.weights v (List.mem_cons_of_mem w hv) }
    obtain ⟨stop, hstop⟩ := hnext.exists_scale? hs.width.1 hs.width.2
    obtain ⟨first, hfirst⟩ := hstart.exists_scale? hs.width.1 hs.width.2
    obtain ⟨others, hothers⟩ := ih (k := k + 1) hrest hnext
    refine ⟨_, columns?_cons.mpr ⟨if rest.isEmpty then s.width else stop, ?_, first, hfirst, others,
      hothers, rfl⟩⟩
    split_ifs
    · rfl
    · exact hstop

theorem exists_spread?_iff (zone : String) (hwidth : 0 ≤ width ∧ width ≤ 2 ^ 53)
    (hgap : Scalar.IsShare gap) (hweights : ∀ w ∈ weights, Weighs w) :
    (∃ columns, spread? zone width gap weights = .ok columns) ↔
      Scalar.lt 0.0 (Scalar.sum weights) = true := by
  obtain ⟨htotal, hle⟩ := weights_le_sum hweights
  constructor
  · rintro ⟨columns, h⟩
    exact (isWeight_pos_iff htotal).mpr (spread?_eq_ok.mp h).1
  · intro hpos
    have hs : Spread.Apt ⟨width, gap, Scalar.sum weights, weights.length / 2⟩ weights :=
      ⟨hwidth, hgap, hpos, fun w hw => ⟨hweights w hw, hle w hw⟩⟩
    obtain ⟨columns, hcolumns⟩ := Spread.exists_columns? (k := 0) hs Counts.zero
    exact ⟨columns, spread?_eq_ok.mpr ⟨(isWeight_pos_iff htotal).mp hpos, hcolumns⟩⟩

/-- Climates are refused for the total of their weights only. -/
theorem spread?_eq_error {zone : String} {e : Fault} (hwidth : 0 ≤ width ∧ width ≤ 2 ^ 53)
    (hgap : Scalar.IsShare gap) (hweights : ∀ w ∈ weights, Weighs w)
    (h : spread? zone width gap weights = .error e) : e = .settings (.climateWeights zone) := by
  by_cases htotal : Scalar.le (Scalar.sum weights) 0.0 = true
  · simp only [spread?, htotal, if_true] at h
    exact (Except.error.inj h).symm
  · have hpos := (isWeight_pos_iff (weights_le_sum hweights).1).mpr (Bool.eq_false_iff.mpr htotal)
    obtain ⟨columns, hcolumns⟩ := (exists_spread?_iff zone hwidth hgap hweights).mpr hpos
    rw [hcolumns] at h
    cases h

end Spread
end Layout

/-- Lists put in drawn orders, one after another from one stream, or left as they are. -/
def Stream.drawn {β : Type} (shuffle : Bool) : List (List β) → Stream → List (List β)
  | [], _ => []
  | xs :: rest, stream =>
    let (ys, stream) := if shuffle then stream.permute xs else (xs, stream)
    ys :: drawn shuffle rest stream

theorem Stream.drawn_map {β γ : Type} (f : β → γ) (shuffle : Bool) (lists : List (List β))
    (stream : Stream) : drawn shuffle (lists.map (List.map f)) stream =
      (drawn shuffle lists stream).map (List.map f) := by
  induction lists generalizing stream with
  | nil => rfl
  | cons xs rest ih =>
    cases shuffle with
    | false => exact congrArg (xs.map f :: ·) (ih stream)
    | true =>
      simp only [List.map_cons, drawn, if_true, permute_map, ih]
      rfl

namespace Generator
variable {α : Type} [Scalar α] {g : Generator α} {zones : List (Zone α)} {stream : Stream}

/-- The climates of all zones can be laid out when those of each zone can be, in its drawn order. -/
theorem spreadZones_eq_none_iff {fits : List (Nat × Interval) → Prop}
    (hfits : ∀ name order, (∃ columns, g.columns? name order = .ok columns) ↔ fits order) :
    (g.spreadZones zones stream).2.2 = none ↔
      ∀ order ∈ Stream.drawn g.shuffleClimates (zones.map (·.climates)) stream, fits order := by
  induction zones generalizing stream with
  | nil => simp [spreadZones, Stream.drawn]
  | cons z rest ih =>
    simp only [spreadZones, List.map_cons, Stream.drawn]
    generalize (if g.shuffleClimates then stream.permute z.climates
      else (z.climates, stream)) = drawn
    obtain ⟨order, next⟩ := drawn
    rw [List.forall_mem_cons, ← hfits z.name order, ← ih]
    cases g.columns? z.name order with
    | error e => simp
    | ok columns => simp

theorem spreadZones_eq_some {e : Fault} (h : (g.spreadZones zones stream).2.2 = some e) :
    ∃ name order, g.columns? name order = .error e := by
  induction zones generalizing stream with
  | nil => simp [spreadZones] at h
  | cons z rest ih =>
    simp only [spreadZones] at h
    generalize (if g.shuffleClimates then stream.permute z.climates
      else (z.climates, stream)) = drawn at h
    obtain ⟨order, next⟩ := drawn
    cases hcolumns : g.columns? z.name order with
    | error e' =>
      rw [hcolumns] at h
      obtain rfl : e' = e := Option.some.inj h
      exact ⟨z.name, order, hcolumns⟩
    | ok columns =>
      rw [hcolumns] at h
      exact ih h

theorem exists_spread?_iff :
    (∃ g', g.spread? = .ok g') ↔ (g.spreadZones g.zones g.stream).2.2 = none := by
  unfold spread? spread
  rcases g.spreadZones g.zones g.stream with ⟨zones, stream, _ | e⟩
  · simp
  · simp

theorem spread?_eq_error_iff {e : Fault} :
    g.spread? = .error e ↔ (g.spreadZones g.zones g.stream).2.2 = some e := by
  unfold spread? spread
  rcases g.spreadZones g.zones g.stream with ⟨zones, stream, _ | e⟩
  · simp
  · simp

end Generator
end TileWorld
