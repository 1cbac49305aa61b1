import Mathlib.Data.List.Forall2
import TileWorld.World.Event

/-! Computations that can fail, taken apart one step at a time. -/
namespace TileWorld
variable {ε β γ : Type}

theorem bind_eq_ok {r : Except ε β} {f : β → Except ε γ} {c : γ} :
    (r >>= f) = .ok c ↔ ∃ b, r = .ok b ∧ f b = .ok c := by
  cases r with
  | error e => simp [bind, Except.bind]
  | ok b => simp [bind, Except.bind]

@[simp] theorem ok_bind (b : β) (f : β → Except ε γ) : (Except.ok b >>= f) = f b := rfl

@[simp] theorem error_bind (e : ε) (f : β → Except ε γ) : (Except.error e >>= f) = .error e := rfl

@[simp] theorem pure_eq_ok (b : β) : (pure b : Except ε β) = .ok b := rfl

@[simp] theorem throw_eq_error (e : ε) : (throw e : Except ε β) = .error e := rfl

theorem bind_eq_error {r : Except ε β} {f : β → Except ε γ} {e : ε} :
    (r >>= f) = .error e ↔ r = .error e ∨ ∃ b, r = .ok b ∧ f b = .error e := by
  cases r with
  | error e => simp [bind, Except.bind]
  | ok b => simp [bind, Except.bind]

theorem exists_bind_ok {r : Except ε β} {f : β → Except ε γ} (hr : ∃ b, r = .ok b)
    (hf : ∀ b, ∃ c, f b = .ok c) : ∃ c, (r >>= f) = .ok c := by
  obtain ⟨b, hb⟩ := hr
  obtain ⟨c, hc⟩ := hf b
  exact ⟨c, bind_eq_ok.mpr ⟨b, hb, hc⟩⟩

theorem map_eq_ok {r : Except ε β} {f : β → γ} {c : γ} :
    f <$> r = .ok c ↔ ∃ b, r = .ok b ∧ f b = c := by
  cases r with
  | error e => simp [Functor.map, Except.map]
  | ok b => simp [Functor.map, Except.map]

theorem ite_error_eq_ok {c : Prop} [Decidable c] {e : ε} {r : Except ε β} {b : β} :
    (if c then .error e else r) = .ok b ↔ ¬c ∧ r = .ok b := by
  by_cases h : c
  · simp [h]
  · simp [h]

theorem isOk_iff {r : Except ε β} : r.isOk = true ↔ ∃ b, r = .ok b := by
  cases r with
  | error e => simp [Except.isOk, Except.toBool]
  | ok b => simp [Except.isOk, Except.toBool]

theorem toOption_eq_some {r : Except ε β} {b : β} : r.toOption = some b ↔ r = .ok b := by
  cases r with
  | error e => simp [Except.toOption]
  | ok b => simp [Except.toOption]

theorem mapM_eq_ok {f : β → Except ε γ} {bs : List β} {cs : List γ} :
    bs.mapM f = .ok cs ↔ List.Forall₂ (fun b c => f b = .ok c) bs cs := by
  induction bs generalizing cs with
  | nil => simp
  | cons b bs ih =>
    rw [List.mapM_cons, List.forall₂_cons_left_iff]
    simp only [bind_eq_ok, pure_eq_ok, Except.ok.injEq, ih]
    constructor
    · rintro ⟨c, hc, cs', hcs, rfl⟩
      exact ⟨c, cs', hc, hcs, rfl⟩
    · rintro ⟨c, cs', hc, hcs, rfl⟩
      exact ⟨c, hc, cs', hcs, rfl⟩

/-- A list fails as one of its steps does. -/
theorem exists_mapM_error {f : β → Except ε γ} {bs : List β} {e : ε} (h : bs.mapM f = .error e) :
    ∃ b ∈ bs, f b = .error e := by
  induction bs with
  | nil => cases h
  | cons b bs ih =>
    rw [List.mapM_cons] at h
    rcases bind_eq_error.mp h with hb | ⟨c, -, h⟩
    · exact ⟨b, List.mem_cons_self, hb⟩
    · rcases bind_eq_error.mp h with hbs | ⟨cs, -, h⟩
      · obtain ⟨b', hb', hfault⟩ := ih hbs
        exact ⟨b', List.mem_cons_of_mem b hb', hfault⟩
      · cases h

/-- Steps that succeed with a property make lists that succeed, all with the property. -/
theorem exists_mapM {f : β → Except ε γ} {p : γ → Prop} {bs : List β}
    (h : ∀ b ∈ bs, ∃ c, f b = .ok c ∧ p c) :
    ∃ cs, bs.mapM f = .ok cs ∧ cs.length = bs.length ∧ ∀ c ∈ cs, p c := by
  induction bs with
  | nil => exact ⟨[], rfl, rfl, by simp⟩
  | cons b bs ih =>
    rw [List.forall_mem_cons] at h
    obtain ⟨c, hc, hpc⟩ := h.1
    obtain ⟨cs, hcs, hlength, hpcs⟩ := ih h.2
    refine ⟨c :: cs, ?_, ?_, List.forall_mem_cons.mpr ⟨hpc, hpcs⟩⟩
    · simp [List.mapM_cons, hc, hcs]
    · rw [List.length_cons, List.length_cons, hlength]

theorem exists_mapM_ok {f : β → Except ε γ} {bs : List β} (h : ∀ b ∈ bs, ∃ c, f b = .ok c) :
    ∃ cs, bs.mapM f = .ok cs := by
  obtain ⟨cs, hcs, -⟩ := exists_mapM (p := fun _ => True) fun b hb => by
    obtain ⟨c, hc⟩ := h b hb
    exact ⟨c, hc, trivial⟩
  exact ⟨cs, hcs⟩

theorem mapM_eq_ok_map {f : β → Except ε γ} {g : β → γ} {bs : List β} :
    bs.mapM f = .ok (bs.map g) ↔ ∀ b ∈ bs, f b = .ok (g b) := by
  rw [mapM_eq_ok, List.forall₂_map_right_iff, List.forall₂_same]

/-- Steps that differ by a function make lists that differ by it. -/
theorem mapM_eq_map {δ : Type} {f : β → Except ε γ} {f' : β → Except ε δ} {g : γ → δ}
    {bs : List β} (h : ∀ b ∈ bs, f' b = g <$> f b) : bs.mapM f' = List.map g <$> bs.mapM f := by
  induction bs with
  | nil => rfl
  | cons b bs ih =>
    have hb := h b List.mem_cons_self
    have hbs := ih fun c hc => h c (List.mem_cons_of_mem b hc)
    simp only [List.mapM_cons, hb, hbs, map_bind, bind_map_left, map_pure, List.map_cons]

theorem mapM_congr {f f' : β → Except ε γ} {bs : List β} (h : ∀ b ∈ bs, f' b = f b) :
    bs.mapM f' = bs.mapM f := by
  rw [mapM_eq_map (g := id) fun b hb => (h b hb).trans (id_map _).symm, List.map_id_fun, id_map]

/-- Steps that succeed alike but for a function make lists that succeed alike but for it. -/
theorem mapM_ok_map {δ : Type} {f : β → Except ε γ} {f' : β → Except ε δ} {g : γ → δ} {bs : List β}
    {cs : List γ} (h : ∀ b ∈ bs, ∀ c, f b = .ok c → f' b = .ok (g c)) (hcs : bs.mapM f = .ok cs) :
    bs.mapM f' = .ok (cs.map g) := by
  induction bs generalizing cs with
  | nil =>
    obtain rfl : [] = cs := Except.ok.inj hcs
    rfl
  | cons b bs ih =>
    rw [List.forall_mem_cons] at h
    rw [List.mapM_cons] at hcs ⊢
    obtain ⟨c, hc, hcs⟩ := bind_eq_ok.mp hcs
    obtain ⟨rest, hrest, hcs⟩ := bind_eq_ok.mp hcs
    obtain rfl : c :: rest = cs := Except.ok.inj hcs
    rw [h.1 c hc, ih h.2 hrest]
    rfl

theorem mapM_append_eq_ok {f : β → Except ε γ} {bs bs' : List β} {cs : List γ} :
    (bs ++ bs').mapM f = .ok cs ↔
      ∃ us, bs.mapM f = .ok us ∧ ∃ us', bs'.mapM f = .ok us' ∧ us ++ us' = cs := by
  rw [List.mapM_append]
  simp only [bind_eq_ok, pure_eq_ok, Except.ok.injEq]

/-- What every step of a run preserves, the run preserves. -/
theorem foldlM_preserves {p : γ → Prop} {f : γ → β → Except ε γ} {bs : List β}
    (hstep : ∀ b ∈ bs, ∀ c c', p c → f c b = .ok c' → p c') {c c' : γ} (hc : p c)
    (h : bs.foldlM f c = .ok c') : p c' := by
  induction bs generalizing c with
  | nil =>
    obtain rfl : c = c' := by simpa using h
    exact hc
  | cons b bs ih =>
    rw [List.foldlM_cons] at h
    obtain ⟨next, hnext, h⟩ := bind_eq_ok.mp h
    have hrest := fun b' hb' => hstep b' (List.mem_cons_of_mem b hb')
    exact ih hrest (hstep b List.mem_cons_self c next hc hnext) h

/-- Runs whose steps are carried over by functions of states and entries are carried over. -/
theorem foldlM_map_map {β' γ' : Type} {f : γ → β → Except ε γ} {f' : γ' → β' → Except ε γ'}
    {σ : γ → γ'} {τ : β → β'} {bs : List β}
    (h : ∀ b ∈ bs, ∀ c, f' (σ c) (τ b) = σ <$> f c b) (c : γ) :
    (bs.map τ).foldlM f' (σ c) = σ <$> bs.foldlM f c := by
  induction bs generalizing c with
  | nil => rfl
  | cons b bs ih =>
    rw [List.forall_mem_cons] at h
    rw [List.map_cons, List.foldlM_cons, List.foldlM_cons, h.1, bind_map_left, map_bind]
    exact bind_congr fun next => ih h.2 next

/-- Steps any two of which can change places make the same run in any order. -/
theorem foldlM_perm {f : γ → β → Except ε γ} {bs bs' : List β} (hperm : bs.Perm bs')
    (h : ∀ b ∈ bs, ∀ b' ∈ bs, ∀ c, (f c b >>= fun d => f d b') = (f c b' >>= fun d => f d b))
    (c : γ) : bs.foldlM f c = bs'.foldlM f c := by
  rw [List.foldlM_eq_foldl, List.foldlM_eq_foldl]
  refine hperm.foldl_eq' (fun b hb b' hb' r => ?_) _
  cases r with
  | error e => rfl
  | ok c => exact h b hb b' hb' c

/-- Each entry of the second list is related to the entry at the same place of the first. -/
theorem forall₂_getElem? {R : β → γ → Prop} {bs : List β} {cs : List γ} (h : List.Forall₂ R bs cs)
    {k : Nat} {c : γ} (hc : cs[k]? = some c) : ∃ b, bs[k]? = some b ∧ R b c := by
  induction h generalizing k with
  | nil => simp at hc
  | cons hbc _ ih =>
    cases k with
    | zero =>
      obtain rfl := Option.some.inj hc
      exact ⟨_, rfl, hbc⟩
    | succ k => exact ih hc

theorem forall₂_rel_getElem? {R : β → γ → Prop} {bs : List β} {cs : List γ}
    (h : List.Forall₂ R bs cs) (k : Nat) : Option.Rel R bs[k]? cs[k]? := by
  induction h generalizing k with
  | nil => exact .none
  | cons hbc _ ih =>
    cases k with
    | zero => exact .some hbc
    | succ k => exact ih k

theorem forall₂_exists_mem {R : β → γ → Prop} {bs : List β} {cs : List γ}
    (h : List.Forall₂ R bs cs) {c : γ} (hc : c ∈ cs) : ∃ b ∈ bs, R b c := by
  obtain ⟨k, hk⟩ := List.getElem?_of_mem hc
  obtain ⟨b, hb, hbc⟩ := forall₂_getElem? h hk
  exact ⟨b, List.mem_of_getElem? hb, hbc⟩

theorem exists_mapM_ok_iff {f : β → Except ε γ} {bs : List β} :
    (∃ cs, bs.mapM f = .ok cs) ↔ ∀ b ∈ bs, ∃ c, f b = .ok c := by
  refine ⟨?_, exists_mapM_ok⟩
  rintro ⟨cs, hcs⟩ b hb
  obtain ⟨c, -, hc⟩ := forall₂_exists_mem (mapM_eq_ok.mp hcs).flip hb
  exact ⟨c, hc⟩

theorem forall₂_of_getElem? {R : β → γ → Prop} {bs : List β} {cs : List γ}
    (hlength : bs.length = cs.length)
    (h : ∀ (k : Nat) b c, bs[k]? = some b → cs[k]? = some c → R b c) : List.Forall₂ R bs cs := by
  refine List.forall₂_iff_get.mpr ⟨hlength, fun k hb hc => ?_⟩
  exact h k _ _ (List.getElem?_eq_getElem hb) (List.getElem?_eq_getElem hc)

theorem map_eq_map_of_forall₂ {δ : Type} {R : β → γ → Prop} {bs : List β} {cs : List γ} {f : β → δ}
    {f' : γ → δ} (h : List.Forall₂ R bs cs) (hR : ∀ b c, R b c → f' c = f b) :
    cs.map f' = bs.map f := by
  rw [← List.forall₂_eq_eq_eq, List.forall₂_map_left_iff, List.forall₂_map_right_iff]
  exact h.flip.imp fun c b hbc => hR b c hbc

theorem forall₂_comp {δ : Type} {R : β → γ → Prop} {Q : γ → δ → Prop} {P : β → δ → Prop}
    {bs : List β} {cs : List γ} {ds : List δ} (h : List.Forall₂ R bs cs) (h' : List.Forall₂ Q cs ds)
    (hP : ∀ b c d, R b c → Q c d → P b d) : List.Forall₂ P bs ds := by
  induction h generalizing ds with
  | nil =>
    cases h'
    exact .nil
  | cons hbc _ ih =>
    cases h' with
    | cons hcd hrest => exact .cons (hP _ _ _ hbc hcd) (ih hrest)

theorem forall₂_rel_find? {R : β → γ → Prop} {bs : List β} {cs : List γ} {p : β → Bool} {q : γ → Bool}
    (h : List.Forall₂ R bs cs) (hR : ∀ b c, R b c → q c = p b) :
    Option.Rel R (bs.find? p) (cs.find? q) := by
  induction h with
  | nil => exact .none
  | @cons b c _ _ hbc _ ih =>
    rw [List.find?_cons, List.find?_cons, hR b c hbc]
    cases p b with
    | true => exact .some hbc
    | false => exact ih

/-- What is made of related lists is related. -/
theorem forall₂_square {β' γ' : Type} {P : β → β' → Prop} {Q : β → γ → Prop} {Q' : β' → γ' → Prop}
    {T : γ → γ' → Prop} {bs : List β} {bs' : List β'} {cs : List γ} {cs' : List γ'}
    (hP : List.Forall₂ P bs bs') (hQ : List.Forall₂ Q bs cs) (hQ' : List.Forall₂ Q' bs' cs')
    (hT : ∀ b b' c c', P b b' → Q b c → Q' b' c' → T c c') : List.Forall₂ T cs cs' := by
  induction hP generalizing cs cs' with
  | nil =>
    cases hQ
    cases hQ'
    exact .nil
  | cons hb _ ih =>
    cases hQ with
    | cons hc hrest =>
      cases hQ' with
      | cons hc' hrest' => exact .cons (hT _ _ _ _ hb hc hc') (ih hrest hrest')

section Options
variable {δ : Type} {R : β → γ → Prop} {o : Option β} {o' : Option γ}

theorem map_eq_map_of_rel {f : β → δ} {f' : γ → δ} (h : Option.Rel R o o')
    (hR : ∀ b c, R b c → f' c = f b) : o'.map f' = o.map f := by
  cases h with
  | none => rfl
  | some hbc => exact congrArg some (hR _ _ hbc)

/-- What is made of one option in two ways is related. -/
theorem rel_square {P : δ → β → Prop} {Q : δ → γ → Prop} {source : Option δ}
    (hP : Option.Rel P source o) (hQ : Option.Rel Q source o')
    (hR : ∀ d b c, o = some b → o' = some c → P d b → Q d c → R b c) : Option.Rel R o o' := by
  cases hP with
  | none =>
    cases hQ
    exact .none
  | some hb =>
    cases hQ with
    | some hc => exact .some (hR _ _ _ rfl rfl hb hc)

end Options

section Agree
variable {ε β γ δ δ' : Type}

/-- Two computations have related results where both return one. -/
def Agree (R : β → γ → Prop) (r : Except ε β) (r' : Except ε γ) : Prop :=
  ∀ b c, r = .ok b → r' = .ok c → R b c

variable {R : β → γ → Prop} {T : δ → δ' → Prop} {r : Except ε β} {r' : Except ε γ}

theorem Agree.ok {b : β} {c : γ} (h : R b c) :
    Agree R (.ok b : Except ε β) (.ok c) := by
  rintro b' c' hb hc
  obtain rfl := Except.ok.inj hb
  obtain rfl := Except.ok.inj hc
  exact h

theorem Agree.error (e : ε) (r' : Except ε γ) : Agree R (.error e : Except ε β) r' := by
  intro b c hb
  cases hb

theorem Agree.bind {k : β → Except ε δ} {k' : γ → Except ε δ'} (h : Agree R r r')
    (hk : ∀ b c, R b c → Agree T (k b) (k' c)) : Agree T (r >>= k) (r' >>= k') := by
  intro d d' hd hd'
  obtain ⟨b, hb, hd⟩ := bind_eq_ok.mp hd
  obtain ⟨c, hc, hd'⟩ := bind_eq_ok.mp hd'
  exact hk b c (h b c hb hc) d d' hd hd'

theorem Agree.map {k : β → δ} {k' : γ → δ'} (h : Agree R r r')
    (hk : ∀ b c, R b c → T (k b) (k' c)) : Agree T (k <$> r) (k' <$> r') := by
  intro d d' hd hd'
  obtain ⟨b, hb, rfl⟩ := map_eq_ok.mp hd
  obtain ⟨c, hc, rfl⟩ := map_eq_ok.mp hd'
  exact hk b c (h b c hb hc)

theorem Agree.mapM {bs : List δ} {f : δ → Except ε β} {g : δ → Except ε γ}
    (h : ∀ b ∈ bs, Agree R (f b) (g b)) :
    Agree (List.Forall₂ R) (bs.mapM f) (bs.mapM g) := by
  intro cs cs' hcs hcs'
  rw [mapM_eq_ok] at hcs hcs'
  induction hcs generalizing cs' with
  | nil =>
    cases hcs'
    exact .nil
  | cons hb _ ih =>
    cases hcs' with
    | cons hb' hrest' =>
      have hhead := h _ List.mem_cons_self
      exact .cons (hhead _ _ hb hb') (ih (fun b hb => h b (List.mem_cons_of_mem _ hb)) _ hrest')

/-- What follows on one computation is related, once it is so for every result. -/
theorem Agree.bind_same {s : Except ε β} {k : β → Except ε δ} {k' : β → Except ε δ'}
    (hk : ∀ b, Agree T (k b) (k' b)) : Agree T (s >>= k) (s >>= k') := by
  cases s with
  | error e => exact .error e _
  | ok b => exact hk b

/-- Runs over the same entries keep the relation that each of their steps keeps. -/
theorem Agree.foldlM {f : β → δ → Except ε β} {f' : γ → δ → Except ε γ} {ds : List δ}
    (h : ∀ d ∈ ds, ∀ b c, R b c → Agree R (f b d) (f' c d)) {b : β} {c : γ} (hbc : R b c) :
    Agree R (ds.foldlM f b) (ds.foldlM f' c) := by
  induction ds generalizing b c with
  | nil => exact .ok hbc
  | cons d ds ih =>
    rw [List.foldlM_cons, List.foldlM_cons]
    rw [List.forall_mem_cons] at h
    exact (h.1 b c hbc).bind fun b' c' hbc' => ih h.2 hbc'

/-- Both computations return, with related results, or both fail for the same reason. -/
inductive Matches (R : β → γ → Prop) : Except ε β → Except ε γ → Prop
  | ok {b : β} {c : γ} (h : R b c) : Matches R (.ok b) (.ok c)
  | error (e : ε) : Matches R (.error e) (.error e)

end Agree

namespace Logged

@[simp] theorem outcome_lift (r : Except Fault β) : (liftM r : Logged β).outcome = r := rfl

@[simp] theorem lift_ok_bind (b : β) (f : β → Logged γ) :
    (liftM (Except.ok b : Except Fault β) : Logged β) >>= f = f b := rfl

@[simp] theorem lift_error_bind (e : Fault) (f : β → Logged γ) :
    (liftM (Except.error e : Except Fault β) : Logged β) >>= f = fail e := rfl

@[simp] theorem outcome_fail (e : Fault) : (fail e : Logged β).outcome = .error e := rfl

end Logged
end TileWorld
