import TileWorld.Proofs.World.Bounds

/-! Entries put into a list at one place. What stood there before is found further on, by name or by
reference, in the same order. -/
namespace TileWorld

/-- Where an entry stands after some were put in at a place. -/
def shifted (place count k : Nat) : Nat := if k < place then k else k + count

theorem shifted_of_lt {place count k : Nat} (h : k < place) : shifted place count k = k := if_pos h

theorem shifted_add (place count k : Nat) : shifted place count (place + k) = place + (count + k) := by
  rw [shifted, if_neg (by omega)]
  omega

theorem shifted_strictMono (place count : Nat) : StrictMono (shifted place count) := by
  intro j k hjk
  unfold shifted
  split_ifs <;> omega

theorem shifted_le (place count k : Nat) : shifted place count k ≤ k + count := by
  unfold shifted
  split_ifs <;> omega

/-- A list into which new entries were put at a place. -/
def Inserted {β : Type} (new : β → Prop) (place count : Nat) (xs ys : List β) : Prop :=
  ∃ before added after, xs = before ++ after ∧ ys = before ++ (added ++ after) ∧
    before.length = place ∧ added.length = count ∧ ∀ e ∈ added, new e

namespace Inserted
variable {β γ : Type} {new : β → Prop} {place count : Nat} {xs ys : List β}

theorem nothing (new : β → Prop) (xs : List β) : Inserted new 0 0 xs xs :=
  ⟨[], [], xs, rfl, rfl, rfl, rfl, by simp⟩

theorem one {before after : List β} {e : β} (he : new e) :
    Inserted new before.length 1 (before ++ after) (before ++ e :: after) :=
  ⟨before, [e], after, rfl, rfl, rfl, rfl, by simpa using he⟩

theorem getElem? (h : Inserted new place count xs ys) (k : Nat) :
    ys[shifted place count k]? = xs[k]? := by
  obtain ⟨before, added, after, rfl, rfl, rfl, rfl, -⟩ := h
  by_cases hk : k < before.length
  · rw [shifted_of_lt hk, List.getElem?_append_left hk, List.getElem?_append_left hk]
  · obtain ⟨j, rfl⟩ := Nat.exists_eq_add_of_le (Nat.le_of_not_lt hk)
    rw [shifted_add]
    simp [List.getElem?_append_right]

theorem mem_or (h : Inserted new place count xs ys) {e : β} (he : e ∈ ys) : e ∈ xs ∨ new e := by
  obtain ⟨before, added, after, rfl, rfl, -, -, hadded⟩ := h
  rw [List.mem_append, List.mem_append] at he
  rcases he with he | he | he
  · exact Or.inl (List.mem_append_left _ he)
  · exact Or.inr (hadded e he)
  · exact Or.inl (List.mem_append_right _ he)

theorem subset (h : Inserted new place count xs ys) : xs ⊆ ys := by
  intro e he
  obtain ⟨k, hk⟩ := List.getElem?_of_mem he
  exact List.mem_of_getElem? ((h.getElem? k).trans hk)

/-- Entries read one by one, the old ones as before but for a function. -/
theorem mapM {ε δ : Type} {new' : δ → Prop} (h : Inserted new place count xs ys)
    {f : β → Except ε γ} {f' : β → Except ε δ} {g : γ → δ} {us : List γ} {vs : List δ}
    (hold : ∀ e ∈ xs, ∀ u, f e = .ok u → f' e = .ok (g u))
    (hnew : ∀ e, new e → ∀ v, f' e = .ok v → new' v) (hus : xs.mapM f = .ok us)
    (hvs : ys.mapM f' = .ok vs) : Inserted new' place count (us.map g) vs := by
  obtain ⟨before, added, after, rfl, rfl, rfl, rfl, hadded⟩ := h
  obtain ⟨us, hbefore, us', hafter, rfl⟩ := mapM_append_eq_ok.mp hus
  obtain ⟨vs, hvs₁, _, hrest, rfl⟩ := mapM_append_eq_ok.mp hvs
  obtain ⟨ws, hws, vs', hvs₂, rfl⟩ := mapM_append_eq_ok.mp hrest
  rw [mapM_ok_map (fun e he => hold e (List.mem_append_left _ he)) hbefore] at hvs₁
  rw [mapM_ok_map (fun e he => hold e (List.mem_append_right _ he)) hafter] at hvs₂
  obtain rfl := Except.ok.inj hvs₁
  obtain rfl := Except.ok.inj hvs₂
  have hlength := (mapM_eq_ok.mp hbefore).length_eq
  have hlength' := (mapM_eq_ok.mp hws).length_eq
  refine ⟨us.map g, ws, us'.map g, by simp, rfl, by simp [hlength], hlength'.symm, fun v hv => ?_⟩
  obtain ⟨e, he, hev⟩ := forall₂_exists_mem (mapM_eq_ok.mp hws) hv
  exact hnew e (hadded e he) v hev

end Inserted

theorem referrers_append (xs ys : List (List Nat)) (target : Nat) :
    referrers (xs ++ ys) target =
      referrers xs target ++ (referrers ys target).map (xs.length + ·) := by
  unfold referrers
  rw [List.zipIdx_append, List.flatMap_append, Nat.zero_add,
    List.zipIdx_eq_map_add (l := ys) (i := xs.length), List.flatMap_map, List.map_flatMap]
  refine congrArg _ (List.flatMap_congr fun e _ => ?_)
  rw [List.map_map]
  rfl

theorem referrers_eq_nil {references : List (List Nat)} (h : ∀ targets ∈ references, targets = [])
    (target : Nat) : referrers references target = [] := by
  unfold referrers
  rw [List.flatMap_eq_nil_iff]
  rintro ⟨targets, k⟩ he
  rw [h targets (List.fst_mem_of_mem_zipIdx he)]
  rfl

/-- Entries that refer to nothing only push the referrers behind them further on. -/
theorem Inserted.referrers {place count : Nat} {references references' : List (List Nat)}
    (h : Inserted (· = []) place count references references') (target : Nat) :
    referrers references' target = (referrers references target).map (shifted place count) := by
  obtain ⟨before, added, after, rfl, rfl, rfl, rfl, hadded⟩ := h
  have hbefore : (TileWorld.referrers before target).map (shifted before.length added.length) =
      TileWorld.referrers before target := by
    refine (List.map_congr_left fun k hk => ?_).trans (List.map_id _)
    exact shifted_of_lt (referrers_lt hk)
  rw [referrers_append, referrers_append, referrers_append, referrers_eq_nil hadded, List.nil_append,
    List.map_append, hbefore, List.map_map, List.map_map]
  refine congrArg _ (List.map_congr_left fun k _ => ?_)
  exact (shifted_add before.length added.length k).symm

/-- References are found whatever the positions that they name are called. -/
theorem referrers_map {τ : Nat → Nat} (hτ : Function.Injective τ) (references : List (List Nat))
    (target : Nat) :
    referrers (references.map (List.map τ)) (τ target) = referrers references target := by
  unfold referrers
  rw [List.zipIdx_map, List.flatMap_map]
  refine List.flatMap_congr fun e _ => ?_
  have hsame : ((· == τ target) ∘ τ : Nat → Bool) = (· == target) := by
    funext k
    simp [hτ.eq_iff]
  simp [List.filter_map, hsame, Function.comp_def]

namespace Directory

theorem getElem?_of_position? {names : List String} {name : String} {k : Nat}
    (h : position? names name = some k) : names[k]? = some name := by
  have hgo (rest before : List String) (found : Option Nat)
      (hfound : ∀ j ∈ found, (before ++ rest)[j]? = some name)
      (h : position?.go name rest before.length found = some k) :
      (before ++ rest)[k]? = some name := by
    induction rest generalizing before found with
    | nil => exact hfound k h
    | cons n rest ih =>
      have happend : before ++ n :: rest = (before ++ [n]) ++ rest := by simp
      rw [happend] at hfound ⊢
      refine ih (before ++ [n]) (if n = name then some before.length else found) (fun j hj => ?_) ?_
      · split_ifs at hj with hn
        · obtain rfl : before.length = j := Option.some.inj hj
          simp [hn]
        · exact hfound j hj
      · simpa [position?.go] using h
  exact hgo names [] none (by simp) h

theorem exists_position? {names : List String} {name : String} (h : name ∈ names) :
    ∃ k, position? names name = some k := by
  have hgo (rest : List String) (start : Nat) (found : Option Nat)
      (h : name ∈ rest ∨ ∃ j, found = some j) :
      ∃ k, position?.go name rest start found = some k := by
    induction rest generalizing start found with
    | nil => exact h.resolve_left List.not_mem_nil
    | cons n rest ih =>
      refine ih (start + 1) (if n = name then some start else found) ?_
      by_cases hn : n = name
      · exact Or.inr ⟨start, if_pos hn⟩
      · rw [if_neg hn]
        rcases h with h | h
        · exact Or.inl ((List.mem_cons.mp h).resolve_left (Ne.symm hn))
        · exact Or.inr h
  exact hgo names 0 none (Or.inl h)

/-- Where every name is declared once, the position of a name is where it stands. -/
theorem resolve?_eq_ok {kind name : String} {names : List String} (hnames : names.Nodup) {k : Nat} :
    resolve? kind names name = .ok k ↔ names[k]? = some name := by
  have hposition : resolve? kind names name = .ok k ↔ position? names name = some k := by
    unfold resolve?
    cases position? names name <;> simp
  rw [hposition]
  constructor
  · exact getElem?_of_position?
  · intro h
    obtain ⟨j, hj⟩ := exists_position? (List.mem_of_getElem? h)
    rw [hj]
    have hsame := (getElem?_of_position? hj).trans h.symm
    have hlt := position?_lt hj
    exact congrArg some ((List.getElem?_inj hlt hnames).mp hsame)

theorem exists_resolve? {kind name : String} {names : List String} (h : name ∈ names) :
    ∃ k, resolve? kind names name = .ok k := by
  obtain ⟨k, hk⟩ := exists_position? h
  exact ⟨k, by rw [resolve?, hk]⟩

end Directory
end TileWorld
