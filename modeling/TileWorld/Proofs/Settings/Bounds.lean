import Mathlib.Tactic.MkIffOfInductiveProp
import TileWorld.Proofs.Outcome
import TileWorld.Proofs.Settings.Order
import TileWorld.Settings.Read

/-! The bounds of the fields of settings. Whatever is read from a document lies within them, and
putting settings in order keeps them. -/
namespace TileWorld

section Bounds
variable {α : Type} [Scalar α]

def Scalar.IsShare (x : α) : Prop := Scalar.le 0.0 x = true ∧ Scalar.le x 1.0 = true

def Scalar.IsWeight (x : α) : Prop := Scalar.le 0.0 x = true

instance (x : α) : Decidable (Scalar.IsShare x) := inferInstanceAs (Decidable (_ ∧ _))

instance (x : α) : Decidable (Scalar.IsWeight x) := inferInstanceAs (Decidable (_ = true))

@[mk_iff]
structure ProducerSettings.InBounds (p : ProducerSettings α) : Prop where
  surfaceSize : Scalar.IsShare p.surfaceSize
  surfaceTransition : Scalar.IsShare p.surfaceTransition

instance (p : ProducerSettings α) : Decidable p.InBounds := decidable_of_iff' _ (ProducerSettings.inBounds_iff p)

@[mk_iff]
structure ZoneSettings.InBounds (z : ZoneSettings α) : Prop where
  heightWeight : Scalar.IsWeight z.heightWeight
  terrainSize : Scalar.IsShare z.terrainSize
  producer : z.producer.InBounds

instance (z : ZoneSettings α) : Decidable z.InBounds := decidable_of_iff' _ (ZoneSettings.inBounds_iff z)

@[mk_iff]
structure ClimateSettings.InBounds (c : ClimateSettings α) : Prop where
  widthWeight : Scalar.IsWeight c.widthWeight
  depth : Scalar.IsShare c.depth
  producer : c.producer.InBounds

instance (c : ClimateSettings α) : Decidable c.InBounds := decidable_of_iff' _ (ClimateSettings.inBounds_iff c)

@[mk_iff]
structure BiomeSettings.InBounds (b : BiomeSettings α) : Prop where
  ratio : Scalar.IsWeight b.ratio

instance (b : BiomeSettings α) : Decidable b.InBounds := decidable_of_iff' _ (BiomeSettings.inBounds_iff b)

@[mk_iff]
structure Settings.InBounds (s : Settings α) : Prop where
  zones : ∀ e ∈ s.zones, e.2.InBounds
  climates : ∀ e ∈ s.climates, e.2.InBounds
  biomes : ∀ e ∈ s.biomes, e.2.InBounds
  width : 0 < s.world.width
  height : 0 < s.world.height
  seed : 0 ≤ s.world.seed
  spawnSize : Scalar.le 0.0 s.spawnSize = true ∧ Scalar.lt s.spawnSize 1.0 = true
  heightTransition : Scalar.lt 0.0 s.heightTransition = true

instance (s : Settings α) : Decidable s.InBounds := decidable_of_iff' _ (Settings.inBounds_iff s)

theorem Settings.InBounds.sorted {s : Settings α} (h : s.InBounds) : s.sorted.InBounds where
  zones e he := h.zones e ((Order.ascending_perm _ s.zones).mem_iff.mp he)
  climates e he := h.climates e ((Order.byName_perm s.climates).mem_iff.mp he)
  biomes e he := h.biomes e ((Order.byName_perm s.biomes).mem_iff.mp he)
  width := h.width
  height := h.height
  seed := h.seed
  spawnSize := h.spawnSize
  heightTransition := h.heightTransition

end Bounds

namespace Check
variable {β γ : Type}

theorem both_eq_ok {f : Check (β → γ)} {v : Check β} {c : γ} :
    both f v = .ok c ↔ ∃ f' v', f = .ok f' ∧ v = .ok v' ∧ f' v' = c := by
  cases f <;> cases v <;> simp [both]

theorem map_eq_ok {f : β → γ} {v : Check β} {c : γ} :
    Except.map f v = .ok c ↔ ∃ v', v = .ok v' ∧ f v' = c := by
  cases v <;> simp [Except.map]

theorem under_eq_ok {name : String} {v : Check β} {b : β} : under name v = .ok b ↔ v = .ok b := by
  cases v <;> simp [under]

theorem indexed_ok {read : β → Check γ} {start : Nat} {ds : List β} {cs : List γ}
    (h : indexed read start ds = .ok cs) : ∀ c ∈ cs, ∃ d, read d = .ok c := by
  induction ds generalizing start cs with
  | nil => simp_all [indexed]
  | cons d rest ih =>
    obtain ⟨_, tail, hcons, htail, rfl⟩ := both_eq_ok.mp h
    obtain ⟨head, hhead, rfl⟩ := Check.map_eq_ok.mp hcons
    intro c hc
    rcases List.mem_cons.mp hc with rfl | hc
    · exact ⟨d, under_eq_ok.mp hhead⟩
    · exact ih htail c hc

end Check

namespace Document
open Check
variable {β : Type} {fields : List (String × Document)} {name : String}

theorem required_ok {read : Document → Check β} {b : β}
    (h : required fields name read = .ok b) : ∃ d, read d = .ok b := by
  have h := under_eq_ok.mp h
  cases hd : field? fields name with
  | none => simp [hd, Check.fail] at h
  | some d => exact ⟨d, by simpa [hd] using h⟩

theorem optional_ok {read : Document → Check β} {default b : β}
    (h : optional fields name default read = .ok b) : b = default ∨ ∃ d, read d = .ok b := by
  unfold optional at h
  cases hd : field? fields name with
  | none => exact .inl (by simpa [hd, eq_comm] using h)
  | some d => exact .inr ⟨d, by simpa [hd, under_eq_ok] using h⟩

theorem list?_ok {read : Document → Check β} {d : Document} {bs : List β}
    (h : list? read d = .ok bs) : ∀ b ∈ bs, ∃ d, read d = .ok b := by
  cases d with
  | list items => exact indexed_ok h
  | _ => simp [list?, Check.fail] at h

/-- Values that a test of bounds lets pass. -/
structure Bounds.Admits (le lt : β → β → Bool) (b : Bounds β) (v : β) : Prop where
  most : ∀ c ∈ b.most, le v c = true
  below : ∀ c ∈ b.below, lt v c = true
  least : ∀ c ∈ b.least, le c v = true
  above : ∀ c ∈ b.above, lt c v = true

theorem Bounds.check_ok {le lt : β → β → Bool} {b : Bounds β} {v w : β}
    (h : b.check le lt v = .ok w) : b.Admits le lt w := by
  have hrefuses (test : β → Bool) (bound : Option β) :
      (bound.any fun c => !test c) = false ↔ ∀ c ∈ bound, test c = true := by
    cases bound <;> simp
  simp only [Bounds.check] at h
  split_ifs at h with hmost hbelow hleast habove
  · simp [Check.fail] at h
  · simp [Check.fail] at h
  · simp [Check.fail] at h
  · simp [Check.fail] at h
  obtain rfl : v = w := by simpa using h
  simp only [Bool.not_eq_true, hrefuses] at hmost hbelow hleast habove
  exact ⟨hmost, hbelow, hleast, habove⟩

theorem double?_ok {b : Bounds Float} {d : Document} {x : Float} (h : double? b d = .ok x) :
    b.Admits Scalar.le Scalar.lt x := by
  simp only [double?] at h
  repeat' split at h
  all_goals
    obtain ⟨y, -, h⟩ := bind_eq_ok.mp h
    exact Bounds.check_ok h

theorem integer?_ok {b : Bounds Int} {d : Document} {n : Int} (h : integer? b d = .ok n) :
    b.Admits (fun a b => decide (a ≤ b)) (fun a b => decide (a < b)) n := by
  simp only [integer?] at h
  repeat' split at h
  all_goals
    obtain ⟨m, -, h⟩ := bind_eq_ok.mp h
    exact Bounds.check_ok h

end Document

section Read
open Check Document

theorem ProducerSettings.read_inBounds {d : Document} {p : ProducerSettings Float}
    (h : ProducerSettings.read d = .ok p) : p.InBounds := by
  obtain ⟨fields, -, h⟩ := bind_eq_ok.mp h
  simp only [both_eq_ok, Check.map_eq_ok] at h
  obtain ⟨_, _, ⟨_, _, ⟨_, _, ⟨size, hsize, rfl⟩, htransition, rfl⟩, -, rfl⟩, -, rfl⟩ := h
  obtain ⟨_, hsize⟩ := required_ok hsize
  obtain ⟨_, htransition⟩ := required_ok htransition
  have hsize := double?_ok hsize
  have htransition := double?_ok htransition
  exact ⟨⟨hsize.least 0.0 rfl, hsize.most 1.0 rfl⟩,
    ⟨htransition.least 0.0 rfl, htransition.most 1.0 rfl⟩⟩

theorem ZoneSettings.read_inBounds {d : Document} {z : ZoneSettings Float}
    (h : ZoneSettings.read d = .ok z) : z.InBounds := by
  obtain ⟨fields, -, h⟩ := bind_eq_ok.mp h
  simp only [both_eq_ok, Check.map_eq_ok] at h
  obtain ⟨_, producer, ⟨_, size, ⟨_, _, ⟨weight, hweight, rfl⟩, -, rfl⟩, hsize, rfl⟩, hproducer,
    rfl⟩ := h
  obtain ⟨_, hweight⟩ := required_ok hweight
  obtain ⟨_, hproducer⟩ := required_ok hproducer
  refine ⟨(double?_ok hweight).least 0.0 rfl, ?_, ProducerSettings.read_inBounds hproducer⟩
  rcases optional_ok hsize with rfl | ⟨_, hsize⟩
  · exact (by decide : Scalar.le (0.0 : Float) 1.0 = true ∧ Scalar.le (1.0 : Float) 1.0 = true)
  · exact ⟨(double?_ok hsize).least 0.0 rfl, (double?_ok hsize).most 1.0 rfl⟩

theorem ClimateSettings.read_inBounds {d : Document} {c : ClimateSettings Float}
    (h : ClimateSettings.read d = .ok c) : c.InBounds := by
  obtain ⟨fields, -, h⟩ := bind_eq_ok.mp h
  simp only [both_eq_ok, Check.map_eq_ok] at h
  obtain ⟨_, _, ⟨_, producer, ⟨_, depth, ⟨_, weight, ⟨_, -, rfl⟩, hweight, rfl⟩, hdepth, rfl⟩,
    hproducer, rfl⟩, -, rfl⟩ := h
  obtain ⟨_, hweight⟩ := required_ok hweight
  obtain ⟨_, hdepth⟩ := required_ok hdepth
  obtain ⟨_, hproducer⟩ := required_ok hproducer
  have hdepth := double?_ok hdepth
  exact ⟨(double?_ok hweight).least 0.0 rfl, ⟨hdepth.least 0.0 rfl, hdepth.most 1.0 rfl⟩,
    ProducerSettings.read_inBounds hproducer⟩

theorem BiomeSettings.read_inBounds {d : Document} {b : BiomeSettings Float}
    (h : BiomeSettings.read d = .ok b) : b.InBounds := by
  obtain ⟨fields, -, h⟩ := bind_eq_ok.mp h
  simp only [both_eq_ok, Check.map_eq_ok] at h
  obtain ⟨_, _, ⟨_, _, ⟨_, _, ⟨_, _, ⟨_, _, ⟨_, ratio, ⟨_, -, rfl⟩, hratio, rfl⟩, -, rfl⟩, -, rfl⟩,
    -, rfl⟩, -, rfl⟩, -, rfl⟩ := h
  constructor
  rcases optional_ok hratio with rfl | ⟨_, hratio⟩
  · exact (by decide : Scalar.le (0.0 : Float) 1.0 = true)
  · exact (double?_ok hratio).least 0.0 rfl

theorem readEntry_ok {β : Type} {read : Document → Check β} {d : Document} {e : String × β}
    (h : readEntry read d = .ok e) : ∃ d, read d = .ok e.2 := by
  cases d with
  | list items =>
    simp only [readEntry] at h
    split_ifs at h
    · simp [Check.fail] at h
    obtain ⟨_, b, hname, hpart, rfl⟩ := both_eq_ok.mp h
    obtain ⟨name, -, rfl⟩ := Check.map_eq_ok.mp hname
    have hpart := under_eq_ok.mp hpart
    cases hd : items[1]? with
    | none => simp [hd, Check.fail] at hpart
    | some d => exact ⟨d, by simpa [hd] using hpart⟩
  | _ => simp [readEntry, Check.fail] at h

theorem World.read_positive {fields : List (String × Document)} {w : World}
    (h : World.read fields = .ok w) : 0 < w.width ∧ 0 < w.height ∧ 0 ≤ w.seed := by
  simp only [World.read, both_eq_ok, Check.map_eq_ok] at h
  obtain ⟨_, seed, ⟨_, height, ⟨width, hwidth, rfl⟩, hheight, rfl⟩, hseed, rfl⟩ := h
  obtain ⟨_, hwidth⟩ := required_ok hwidth
  obtain ⟨_, hheight⟩ := required_ok hheight
  refine ⟨?_, ?_, ?_⟩
  · simpa using (integer?_ok hwidth).above 0 rfl
  · simpa using (integer?_ok hheight).above 0 rfl
  · rcases optional_ok hseed with rfl | ⟨_, hseed⟩
    · exact le_rfl
    · simpa using (integer?_ok hseed).least 0 rfl

/-- Settings that are read from a document lie within the bounds of their fields. -/
theorem Settings.read_inBounds {d : Document} {s : Settings Float}
    (h : Settings.read d = .ok s) : s.InBounds := by
  obtain ⟨fields, -, h⟩ := bind_eq_ok.mp h
  simp only [both_eq_ok, Check.map_eq_ok] at h
  obtain ⟨_, _, ⟨_, _, ⟨_, transition, ⟨_, spawn, ⟨_, world, ⟨_, biomes, ⟨_, climates,
    ⟨zones, hzones, rfl⟩, hclimates, rfl⟩, hbiomes, rfl⟩, hworld, rfl⟩, hspawn, rfl⟩,
    htransition, rfl⟩, -, rfl⟩, -, rfl⟩ := h
  obtain ⟨_, hzones⟩ := required_ok hzones
  obtain ⟨_, hbiomes⟩ := required_ok hbiomes
  obtain ⟨hwidth, hheight, hseed⟩ := World.read_positive hworld
  refine ⟨fun e he => ?_, fun e he => ?_, fun e he => ?_, hwidth, hheight, hseed, ?_, ?_⟩
  · obtain ⟨_, he⟩ := list?_ok hzones e he
    obtain ⟨_, he⟩ := readEntry_ok he
    exact ZoneSettings.read_inBounds he
  · rcases optional_ok hclimates with rfl | ⟨_, hclimates⟩
    · simp at he
    · obtain ⟨_, he⟩ := list?_ok hclimates e he
      obtain ⟨_, he⟩ := readEntry_ok he
      exact ClimateSettings.read_inBounds he
  · obtain ⟨_, he⟩ := list?_ok hbiomes e he
    obtain ⟨_, he⟩ := readEntry_ok he
    exact BiomeSettings.read_inBounds he
  · rcases optional_ok hspawn with rfl | ⟨_, hspawn⟩
    · exact (by decide : Scalar.le (0.0 : Float) 0.0 = true ∧ Scalar.lt (0.0 : Float) 1.0 = true)
    · exact ⟨(double?_ok hspawn).least 0.0 rfl, (double?_ok hspawn).below 1.0 rfl⟩
  · rcases optional_ok htransition with rfl | ⟨_, htransition⟩
    · exact (by decide : Scalar.lt (0.0 : Float) 0.2 = true)
    · exact (double?_ok htransition).above 0.0 rfl

end Read
end TileWorld
