import Mathlib.Data.String.Basic
import Mathlib.Tactic
import TileWorld.Settings.Order

/-! Laws of the orders that settings are put in. -/
namespace TileWorld.Order

theorem byName_of_pairwise {β : Type} {xs : List (String × β)}
    (h : xs.Pairwise fun a b => a.1 ≤ b.1) : byName xs = xs :=
  List.mergeSort_of_pairwise (by simpa using h)

theorem byName_perm {β : Type} (xs : List (String × β)) : (byName xs).Perm xs :=
  List.mergeSort_perm xs _

theorem nodup_byName_iff {β : Type} {xs : List (String × β)} :
    ((byName xs).map Prod.fst).Nodup ↔ (xs.map Prod.fst).Nodup :=
  ((byName_perm xs).map Prod.fst).nodup_iff

private theorem mergeSort_pairwise {β : Type} (name : β → String) (xs : List β) :
    (xs.mergeSort fun a b => decide (name a ≤ name b)).Pairwise fun a b => name a ≤ name b := by
  have htrans (a b c : β) :
      decide (name a ≤ name b) → decide (name b ≤ name c) → decide (name a ≤ name c) := by
    simpa using le_trans
  have htotal (a b : β) : decide (name a ≤ name b) || decide (name b ≤ name a) := by
    simpa using le_total (name a) (name b)
  simpa using List.pairwise_mergeSort htrans htotal xs

theorem byName_pairwise {β : Type} (xs : List (String × β)) :
    (byName xs).Pairwise fun a b => a.1 ≤ b.1 := mergeSort_pairwise Prod.fst xs

theorem byName_names_lt {β : Type} {xs : List (String × β)}
    (h : ((byName xs).map Prod.fst).Nodup) : ((byName xs).map Prod.fst).Pairwise (· < ·) :=
  ((List.pairwise_map.mpr (byName_pairwise xs)).and h).imp fun hab => lt_of_le_of_ne hab.1 hab.2

/-- Entries whose names differ have one order only. -/
theorem eq_byName {β : Type} {xs ys : List (String × β)} (hperm : ys.Perm xs)
    (hnames : (xs.map Prod.fst).Nodup) (hsorted : ys.Pairwise fun a b => a.1 ≤ b.1) :
    ys = byName xs := by
  refine List.Perm.eq_of_pairwise (fun a b ha hb hab hba => ?_) hsorted (byName_pairwise xs)
    (hperm.trans (byName_perm xs).symm)
  have ha : a ∈ xs := hperm.mem_iff.mp ha
  have hb : b ∈ xs := (byName_perm xs).mem_iff.mp hb
  exact List.inj_on_of_nodup_map hnames ha hb (le_antisymm hab hba)

theorem byName_eq_of_perm {β : Type} {xs ys : List (String × β)} (h : ys.Perm xs)
    (hnames : (xs.map Prod.fst).Nodup) : byName ys = byName xs :=
  eq_byName ((byName_perm ys).trans h) hnames (byName_pairwise ys)

/-- An entry of a new name is put in at one place, and all others keep their order. -/
theorem byName_insert {β : Type} {xs ys : List (String × β)} {e : String × β}
    (h : ys.Perm (e :: xs)) (hnames : (xs.map Prod.fst).Nodup) :
    ∃ before after, byName xs = before ++ after ∧ byName ys = before ++ e :: after := by
  have hperm := (byName_perm ys).trans h
  obtain ⟨before, after, hys⟩ := List.append_of_mem (hperm.mem_iff.mpr List.mem_cons_self)
  have hsorted := byName_pairwise ys
  rw [hys] at hperm hsorted
  refine ⟨before, after, ?_, hys⟩
  refine (eq_byName (List.perm_middle.symm.trans hperm).cons_inv hnames ?_).symm
  exact hsorted.sublist ((List.sublist_cons_self e after).append_left before)

theorem place_perm {β : Type} (exceeds : β → β → Bool) (x : β) (ys : List β) :
    (place exceeds x ys).Perm (x :: ys) := by
  induction ys with
  | nil => exact List.Perm.refl _
  | cons y rest ih =>
    rw [place]
    split_ifs
    · exact (ih.cons y).trans (List.Perm.swap x y rest)
    · exact List.Perm.refl _

theorem ascending_perm {β : Type} (exceeds : β → β → Bool) (xs : List β) :
    (ascending exceeds xs).Perm xs := by
  have hfold (placed : List β) :
      (xs.foldl (fun placed x => place exceeds x placed) placed).Perm (xs ++ placed) := by
    induction xs generalizing placed with
    | nil => exact List.Perm.refl _
    | cons x rest ih =>
      calc (rest.foldl (fun placed x => place exceeds x placed) (place exceeds x placed)).Perm
            (rest ++ place exceeds x placed) := ih _
        _ |>.Perm (rest ++ x :: placed) := (place_perm exceeds x placed).append_left rest
        _ |>.Perm (x :: rest ++ placed) := List.perm_middle
  rw [ascending]
  simpa using (List.reverse_perm _).trans (hfold [])

section Stable
variable {β : Type} {exceeds : β → β → Bool} {p : β → Bool}

/-- An entry passes none of the entries that are picked out along with it. -/
theorem filter_place {x : β} {ys : List β}
    (h : ∀ y ∈ ys, p y = true → p x = true → exceeds y x = false) :
    (place exceeds x ys).filter p = (x :: ys).filter p := by
  induction ys with
  | nil => rfl
  | cons y rest ih =>
    rw [List.forall_mem_cons] at h
    rw [place]
    split_ifs with hexceeds
    · cases hy : p y with
      | false =>
        rw [List.filter_cons_of_neg (by simp [hy]), ih h.2, List.filter_cons, List.filter_cons,
          List.filter_cons_of_neg (by simp [hy])]
      | true =>
        have hx : ¬p x = true := fun hx => Bool.false_ne_true ((h.1 hy hx).symm.trans hexceeds)
        rw [List.filter_cons_of_pos hy, ih h.2, List.filter_cons_of_neg hx,
          List.filter_cons_of_neg hx, List.filter_cons_of_pos hy]
    · rfl

/-- Entries of which none exceeds another keep their order. -/
theorem filter_ascending {xs : List β}
    (h : ∀ a ∈ xs, ∀ b ∈ xs, p a = true → p b = true → exceeds a b = false) :
    (ascending exceeds xs).filter p = xs.filter p := by
  have hfold (rest placed : List β) (hrest : rest ⊆ xs) (hplaced : placed ⊆ xs) :
      (rest.foldl (fun placed x => place exceeds x placed) placed).filter p =
        (rest.reverse ++ placed).filter p := by
    induction rest generalizing placed with
    | nil => rfl
    | cons x rest ih =>
      rw [List.cons_subset] at hrest
      have hsubset : place exceeds x placed ⊆ xs := fun a ha =>
        (List.mem_cons.mp ((place_perm exceeds x placed).mem_iff.mp ha)).elim
          (fun hax => hax ▸ hrest.1) (fun ha => hplaced ha)
      calc (rest.foldl (fun placed x => place exceeds x placed) (place exceeds x placed)).filter p
          = rest.reverse.filter p ++ (place exceeds x placed).filter p := by
            rw [ih _ hrest.2 hsubset, List.filter_append]
        _ = rest.reverse.filter p ++ (x :: placed).filter p := by
            rw [filter_place fun y hy => h y (hplaced hy) x hrest.1]
        _ = ((x :: rest).reverse ++ placed).filter p := by
            rw [← List.filter_append, List.reverse_cons, List.append_assoc, List.singleton_append]
  rw [ascending, List.filter_reverse, hfold xs [] (List.Subset.refl xs) (List.nil_subset xs),
    List.append_nil, List.filter_reverse, List.reverse_reverse]

end Stable

section Keys
variable {β : Type} {exceeds : β → β → Bool} {key : β → ℤ}

theorem place_pairwise {x : β} {ys : List β}
    (hkey : ∀ y ∈ ys, exceeds y x = true ↔ key x < key y)
    (h : ys.Pairwise fun a b => key b ≤ key a) :
    (place exceeds x ys).Pairwise fun a b => key b ≤ key a := by
  induction ys with
  | nil => exact List.pairwise_singleton _ x
  | cons y rest ih =>
    obtain ⟨hy, hrest⟩ := List.pairwise_cons.mp h
    rw [List.forall_mem_cons] at hkey
    rw [place]
    split_ifs with hexceeds
    · refine List.pairwise_cons.mpr ⟨fun b hb => ?_, ih hkey.2 hrest⟩
      rcases List.mem_cons.mp ((place_perm exceeds x rest).mem_iff.mp hb) with rfl | hb
      · exact (hkey.1.mp hexceeds).le
      · exact hy b hb
    · have hle : key y ≤ key x := not_lt.mp (mt hkey.1.mpr hexceeds)
      refine List.pairwise_cons.mpr ⟨fun b hb => ?_, h⟩
      rcases List.mem_cons.mp hb with rfl | hb
      · exact hle
      · exact (hy b hb).trans hle

/-- Entries that are compared by keys come out with ascending keys. -/
theorem ascending_pairwise {xs : List β}
    (hkey : ∀ a ∈ xs, ∀ b ∈ xs, exceeds a b = true ↔ key b < key a) :
    (ascending exceeds xs).Pairwise fun a b => key a ≤ key b := by
  have hfold (rest placed : List β) (hrest : rest ⊆ xs) (hplaced : placed ⊆ xs)
      (h : placed.Pairwise fun a b => key b ≤ key a) :
      (rest.foldl (fun placed x => place exceeds x placed) placed).Pairwise
        fun a b => key b ≤ key a := by
    induction rest generalizing placed with
    | nil => exact h
    | cons x rest ih =>
      rw [List.cons_subset] at hrest
      refine ih _ hrest.2 (fun a ha => ?_)
        (place_pairwise (fun y hy => hkey y (hplaced hy) x hrest.1) h)
      rcases List.mem_cons.mp ((place_perm exceeds x placed).mem_iff.mp ha) with rfl | ha
      · exact hrest.1
      · exact hplaced ha
  exact List.pairwise_reverse.mpr (hfold xs [] (List.Subset.refl xs) (List.nil_subset xs) .nil)

/-- Entries of different keys have one ascending order only. -/
theorem ascending_eq_of_perm {xs ys : List β} (h : ys.Perm xs)
    (hkey : ∀ a ∈ xs, ∀ b ∈ xs, exceeds a b = true ↔ key b < key a)
    (hkeys : xs.Pairwise fun a b => key a ≠ key b) :
    ascending exceeds ys = ascending exceeds xs := by
  have hmem {a : β} (ha : a ∈ ys) : a ∈ xs := h.mem_iff.mp ha
  have hys := ascending_pairwise fun a ha b hb => hkey a (hmem ha) b (hmem hb)
  refine List.Perm.eq_of_pairwise (fun a b ha hb hab hba => ?_) hys (ascending_pairwise hkey)
    ((ascending_perm exceeds ys).trans (h.trans (ascending_perm exceeds xs).symm))
  have ha : a ∈ xs := hmem ((ascending_perm exceeds ys).mem_iff.mp ha)
  have hb : b ∈ xs := (ascending_perm exceeds xs).mem_iff.mp hb
  by_contra hne
  have : Std.Symm fun a b : β => key a ≠ key b := ⟨fun _ _ => Ne.symm⟩
  exact hkeys.forall ha hb hne (le_antisymm hab hba)

end Keys

section Related
variable {β γ : Type}

/-- Entries that go together are put in order together, when they are compared alike. -/
theorem forall₂_ascending {R : β → γ → Prop} {exceeds : β → β → Bool} {exceeds' : γ → γ → Bool}
    (hR : ∀ a b c d, R a b → R c d → exceeds' b d = exceeds a c) {xs : List β} {ys : List γ}
    (h : List.Forall₂ R xs ys) : List.Forall₂ R (ascending exceeds xs) (ascending exceeds' ys) := by
  have hplace {x : β} {y : γ} (hxy : R x y) {xs : List β} {ys : List γ}
      (h : List.Forall₂ R xs ys) : List.Forall₂ R (place exceeds x xs) (place exceeds' y ys) := by
    induction h with
    | nil => exact .cons hxy .nil
    | @cons a b rest rest' hab hrest ih =>
      rw [place, place, hR a b x y hab hxy]
      split_ifs
      · exact .cons hab ih
      · exact .cons hxy (.cons hab hrest)
  have hfold {placed : List β} {placed' : List γ} (hplaced : List.Forall₂ R placed placed') :
      List.Forall₂ R (xs.foldl (fun placed x => place exceeds x placed) placed)
        (ys.foldl (fun placed y => place exceeds' y placed) placed') := by
    induction h generalizing placed placed' with
    | nil => exact hplaced
    | cons hxy _ ih => exact ih (hplace hxy hplaced)
  exact List.forall₂_reverse_iff.mpr (hfold .nil)

theorem forall₂_byName {R : String × β → String × γ → Prop} (hR : ∀ e e', R e e' → e'.1 = e.1)
    {xs : List (String × β)} {ys : List (String × γ)} (h : List.Forall₂ R xs ys) :
    List.Forall₂ R (byName xs) (byName ys) := by
  obtain ⟨hlength, hpairs⟩ := List.forall₂_iff_zip.mp h
  have hleft : (xs.zip ys).map Prod.fst = xs := List.map_fst_zip hlength.le
  have hright : (xs.zip ys).map Prod.snd = ys := List.map_snd_zip hlength.ge
  have hmem {p} (hp : p ∈ xs.zip ys) : R p.1 p.2 := hpairs hp
  -- Pairs are put in order by the names that their entries share.
  have hfst := List.map_mergeSort (r := fun p q => decide (p.1.1 ≤ q.1.1))
    (s := fun a b => decide (a.1 ≤ b.1)) (f := Prod.fst) (l := xs.zip ys) fun _ _ _ _ => rfl
  have hsnd := List.map_mergeSort (r := fun p q => decide (p.1.1 ≤ q.1.1))
    (s := fun a b => decide (a.1 ≤ b.1)) (f := Prod.snd) (l := xs.zip ys)
    fun p hp q hq => by rw [hR _ _ (hmem hp), hR _ _ (hmem hq)]
  rw [hleft] at hfst
  rw [hright] at hsnd
  rw [byName, byName, ← hfst, ← hsnd, List.forall₂_map_left_iff, List.forall₂_map_right_iff,
    List.forall₂_same]
  exact fun p hp => hmem ((List.mergeSort_perm _ _).mem_iff.mp hp)

/-- Entries are put in order alike when what is done to each keeps what they are compared by. -/
theorem ascending_map {exceeds : β → β → Bool} {exceeds' : γ → γ → Bool} (f : β → γ)
    (hf : ∀ a b, exceeds' (f a) (f b) = exceeds a b) (xs : List β) :
    ascending exceeds' (xs.map f) = (ascending exceeds xs).map f := by
  have hmap : List.Forall₂ (fun a b => f a = b) xs (xs.map f) :=
    List.forall₂_map_right_iff.mpr (List.forall₂_same.mpr fun _ _ => rfl)
  have hsorted : List.Forall₂ (fun a b => f a = b) (ascending exceeds xs)
      (ascending exceeds' (xs.map f)) :=
    forall₂_ascending (fun a b c d hab hcd => by rw [← hab, ← hcd, hf]) hmap
  rw [← List.forall₂_eq_eq_eq, List.forall₂_map_right_iff]
  exact hsorted.flip.imp fun _ _ h => h.symm

theorem byName_map (f : String × β → String × γ) (hf : ∀ e, (f e).1 = e.1)
    (xs : List (String × β)) : byName (xs.map f) = (byName xs).map f := by
  refine (List.map_mergeSort fun a _ b _ => ?_).symm
  rw [hf, hf]

end Related

/-- The report of repeated names does not hang on the order they are given in. -/
theorem repeated_eq_of_perm {names names' : List String} (h : names'.Perm names) :
    repeated names' = repeated names := by
  have hperm (ns : List String) := List.mergeSort_perm ns fun a b => decide (a ≤ b)
  have hsame : (names'.mergeSort fun a b => decide (a ≤ b)) =
      names.mergeSort fun a b => decide (a ≤ b) :=
    List.Perm.eq_of_pairwise (fun _ _ _ _ => le_antisymm) (mergeSort_pairwise id names')
      (mergeSort_pairwise id names) ((hperm names').trans (h.trans (hperm names).symm))
  rw [repeated, repeated, hsame]

private theorem go_eq_nil_iff {names : List String} (h : names.Pairwise (· ≤ ·)) :
    repeated.go names = [] ↔ names.Nodup := by
  induction names with
  | nil => simp [repeated.go]
  | cons a names ih =>
    cases names with
    | nil => simp [repeated.go]
    | cons b rest =>
      obtain ⟨ha, hrest⟩ := List.pairwise_cons.mp h
      have hab : a ∈ b :: rest ↔ a = b := by
        refine ⟨fun hmem => le_antisymm (ha b (by simp)) ?_, fun hab => by simp [hab]⟩
        rcases List.mem_cons.mp hmem with hab | hmem
        · exact hab.ge
        · exact (List.pairwise_cons.mp hrest).1 a hmem
      rw [List.nodup_cons, hab, ← ih hrest, repeated.go]
      -- When neighbours agree, either this name or one found later is reported.
      split_ifs with hlater
      · simp [hlater.1]
      · have hne : repeated.go (b :: rest) = [] → a ≠ b := by
          intro hnil hab
          exact hlater ⟨hab, by simp [hnil]⟩
        exact ⟨fun hnil => ⟨hne hnil, hnil⟩, And.right⟩

/-- Nothing is reported exactly when no name occurs twice. -/
theorem repeated_eq_nil_iff (names : List String) : repeated names = [] ↔ names.Nodup := by
  have hsorted : (names.mergeSort fun a b => decide (a ≤ b)).Pairwise (· ≤ ·) :=
    mergeSort_pairwise id names
  rw [repeated, go_eq_nil_iff hsorted, (List.mergeSort_perm names _).nodup_iff]

end TileWorld.Order
