import TileWorld.Proofs.World.Insertion

/-! Which settings resolve. Names must be unique, zones must share the height by weights, and every
name that is referred to must be declared; only when all else is well is a name reported as unknown. -/
namespace TileWorld
variable {α : Type}

/-- The biomes of a producer are among those of given names. -/
def ProducerSettings.Declared (biomes : List String) (p : ProducerSettings α) : Prop :=
  p.surfaceBiome ∈ biomes ∧ p.caveBiome ∈ biomes

namespace Settings

/-- No name is declared twice as a zone, as a climate or as a biome. -/
structure Distinct (s : Settings α) : Prop where
  zones : (s.zones.map Prod.fst).Nodup
  climates : (s.climates.map Prod.fst).Nodup
  biomes : (s.biomes.map Prod.fst).Nodup

/-- Every zone, climate and biome that is referred to is declared. -/
structure Declared (s : Settings α) : Prop where
  zones : ∀ e ∈ s.zones, e.2.producer.Declared (s.biomes.map Prod.fst)
  climates : ∀ e ∈ s.climates, e.2.zones ⊆ s.zones.map Prod.fst ∧
    e.2.producer.Declared (s.biomes.map Prod.fst)
  biomes : ∀ e ∈ s.biomes, e.2.zones ⊆ s.zones.map Prod.fst ∧
    e.2.climates ⊆ s.climates.map Prod.fst

theorem Declared.of_perm {s s' : Settings α} (h : s.Declared) (hzones : s'.zones.Perm s.zones)
    (hclimates : s'.climates.Perm s.climates) (hbiomes : s'.biomes.Perm s.biomes) :
    s'.Declared := by
  have hz {name : String} (h : name ∈ s.zones.map Prod.fst) : name ∈ s'.zones.map Prod.fst :=
    (hzones.map Prod.fst).mem_iff.mpr h
  have hc {name : String} (h : name ∈ s.climates.map Prod.fst) : name ∈ s'.climates.map Prod.fst :=
    (hclimates.map Prod.fst).mem_iff.mpr h
  have hb {name : String} (h : name ∈ s.biomes.map Prod.fst) : name ∈ s'.biomes.map Prod.fst :=
    (hbiomes.map Prod.fst).mem_iff.mpr h
  refine ⟨fun e he => ?_, fun e he => ?_, fun e he => ?_⟩
  · obtain ⟨hsurface, hcave⟩ := h.zones e (hzones.mem_iff.mp he)
    exact ⟨hb hsurface, hb hcave⟩
  · obtain ⟨hrefs, hsurface, hcave⟩ := h.climates e (hclimates.mem_iff.mp he)
    exact ⟨fun _ hname => hz (hrefs hname), hb hsurface, hb hcave⟩
  · obtain ⟨hrefs, hrefs'⟩ := h.biomes e (hbiomes.mem_iff.mp he)
    exact ⟨fun _ hname => hz (hrefs hname), fun _ hname => hc (hrefs' hname)⟩

section Sorted
variable [Scalar α] {s : Settings α}

/-- There are zones, and the total of their weights is not zero or less. -/
def Shares (s : Settings α) : Prop :=
  s.zones ≠ [] ∧ Scalar.le (Scalar.sum (s.zones.map (·.2.heightWeight))) 0.0 = false

theorem declared_sorted : s.sorted.Declared ↔ s.Declared := by
  have hzones : s.sorted.zones.Perm s.zones := Order.ascending_perm _ s.zones
  have hclimates : s.sorted.climates.Perm s.climates := Order.byName_perm s.climates
  have hbiomes : s.sorted.biomes.Perm s.biomes := Order.byName_perm s.biomes
  exact ⟨fun h => h.of_perm hzones.symm hclimates.symm hbiomes.symm,
    fun h => h.of_perm hzones hclimates hbiomes⟩

theorem distinct_sorted : s.sorted.Distinct ↔ s.Distinct := by
  have hzones : (s.sorted.zones.map Prod.fst).Perm (s.zones.map Prod.fst) :=
    (Order.ascending_perm _ s.zones).map Prod.fst
  constructor
  · intro h
    exact ⟨hzones.nodup_iff.mp h.zones, Order.nodup_byName_iff.mp h.climates,
      Order.nodup_byName_iff.mp h.biomes⟩
  · intro h
    exact ⟨hzones.nodup_iff.mpr h.zones, Order.nodup_byName_iff.mpr h.climates,
      Order.nodup_byName_iff.mpr h.biomes⟩

theorem sorted_zones_eq_nil : s.sorted.zones = [] ↔ s.zones = [] := by
  have hperm : s.sorted.zones.Perm s.zones := Order.ascending_perm _ s.zones
  rw [← List.length_eq_zero_iff, hperm.length_eq, List.length_eq_zero_iff]

end Sorted
end Settings

/-- A report of a name that is used but not declared. -/
def Fault.IsUnknown (e : Fault) : Prop :=
  ∃ kind name, e = .settings (.unknownReference kind name)

namespace Directory
variable {kind name : String} {names refs : List String} {e : Fault}

theorem isUnknown_of_resolve? (h : resolve? kind names name = .error e) : e.IsUnknown := by
  unfold resolve? at h
  cases hk : position? names name with
  | none =>
    rw [hk] at h
    exact ⟨kind, name, (Except.error.inj h).symm⟩
  | some k =>
    rw [hk] at h
    cases h

theorem mem_of_resolve? {k : Nat} (h : resolve? kind names name = .ok k) : name ∈ names := by
  unfold resolve? at h
  cases hk : position? names name with
  | none =>
    rw [hk] at h
    cases h
  | some j => exact List.mem_of_getElem? (getElem?_of_position? hk)

theorem subset_of_mapM {ks : List Nat} (h : refs.mapM (resolve? kind names) = .ok ks) :
    refs ⊆ names := by
  intro ref href
  obtain ⟨k, -, hk⟩ := forall₂_exists_mem (mapM_eq_ok.mp h).flip href
  exact mem_of_resolve? hk

theorem exists_mapM_resolve? (h : refs ⊆ names) : ∃ ks, refs.mapM (resolve? kind names) = .ok ks :=
  exists_mapM_ok fun _ href => exists_resolve? (h href)

theorem isUnknown_of_mapM (h : refs.mapM (resolve? kind names) = .error e) : e.IsUnknown := by
  obtain ⟨ref, -, hfault⟩ := exists_mapM_error h
  exact isUnknown_of_resolve? hfault

/-- References to one position are found by its name. -/
theorem filter_resolved {k : Nat} {ks : List Nat} (hnames : names.Nodup)
    (hk : names[k]? = some name) (h : refs.mapM (Directory.resolve? kind names) = .ok ks) :
    ks.filter (· == k) = (refs.filter (· == name)).map fun _ => k := by
  rw [mapM_eq_ok] at h
  induction h with
  | nil => rfl
  | @cons ref j refs ks href _ ih =>
    rw [Directory.resolve?_eq_ok hnames] at href
    have hlt : j < names.length := (List.getElem?_eq_some_iff.mp href).1
    have hsame : j = k ↔ ref = name := by
      rw [← List.getElem?_inj hlt hnames, href, hk, Option.some.injEq]
    by_cases hj : j = k
    · rw [List.filter_cons_of_pos (by simpa using hj),
        List.filter_cons_of_pos (by simpa using hsame.mp hj), List.map_cons, ih, hj]
    · rw [List.filter_cons_of_neg (by simpa using hj),
        List.filter_cons_of_neg (by simpa using mt hsame.mpr hj), ih]

end Directory

namespace Producer
variable {names : List String} {t : ProducerSettings α}

theorem declared_of_resolve? {p : Producer α} (h : resolve? names t = .ok p) : t.Declared names := by
  simp only [resolve?, bind_eq_ok] at h
  obtain ⟨surface, hsurface, cave, hcave, -⟩ := h
  exact ⟨Directory.mem_of_resolve? hsurface, Directory.mem_of_resolve? hcave⟩

theorem exists_resolve? (h : t.Declared names) : ∃ p, resolve? names t = .ok p := by
  obtain ⟨surface, hsurface⟩ := @Directory.exists_resolve? "biome" _ _ h.1
  obtain ⟨cave, hcave⟩ := @Directory.exists_resolve? "biome" _ _ h.2
  exact ⟨⟨t.surfaceSize, t.surfaceTransition, surface, cave⟩, by simp [resolve?, hsurface, hcave]⟩

theorem isUnknown_of_resolve? {e : Fault} (h : resolve? names t = .error e) : e.IsUnknown := by
  rcases bind_eq_error.mp h with hsurface | ⟨surface, -, h⟩
  · exact Directory.isUnknown_of_resolve? hsurface
  · rcases bind_eq_error.mp h with hcave | ⟨cave, -, h⟩
    · exact Directory.isUnknown_of_resolve? hcave
    · cases h

end Producer

namespace Roster
variable [Scalar α] {s : Settings α} {e : Fault}

theorem checkUnique_eq_error {kind : String} {names : List String}
    (h : checkUnique kind names = .error e) :
    ¬names.Nodup ∧ ∃ repeated, e = .settings (.duplicates kind repeated) := by
  unfold checkUnique at h
  cases hnames : Order.repeated names with
  | nil => simp [hnames] at h
  | cons name rest =>
    rw [hnames] at h
    have hne : Order.repeated names ≠ [] := by simp [hnames]
    exact ⟨mt (Order.repeated_eq_nil_iff names).mpr hne, _, (Except.error.inj h).symm⟩

/-- Nothing but an unknown name stops the linking of zones that share the height. -/
theorem link?_isUnknown (hs : s.Shares) (h : link? s = .error e) : e.IsUnknown := by
  have hempty : s.zones.isEmpty = false := by simpa using hs.1
  simp only [link?, hempty, hs.2, Bool.false_eq_true, if_false] at h
  rcases bind_eq_error.mp h with hzones | ⟨zones, -, h⟩
  · obtain ⟨z, -, hz⟩ := exists_mapM_error hzones
    rcases bind_eq_error.mp hz with hproducer | ⟨p, -, hz⟩
    · exact Producer.isUnknown_of_resolve? hproducer
    · cases hz
  rcases bind_eq_error.mp h with hclimates | ⟨climates, -, h⟩
  · obtain ⟨c, -, hc⟩ := exists_mapM_error hclimates
    rcases bind_eq_error.mp hc with hrefs | ⟨refs, -, hc⟩
    · exact Directory.isUnknown_of_mapM hrefs
    · rcases bind_eq_error.mp hc with hproducer | ⟨p, -, hc⟩
      · exact Producer.isUnknown_of_resolve? hproducer
      · cases hc
  rcases bind_eq_error.mp h with hbiomes | ⟨biomes, -, h⟩
  · obtain ⟨b, -, hb⟩ := exists_mapM_error hbiomes
    rcases bind_eq_error.mp hb with hrefs | ⟨refs, -, hb⟩
    · exact Directory.isUnknown_of_mapM hrefs
    · rcases bind_eq_error.mp hb with hrefs' | ⟨refs', -, hb⟩
      · exact Directory.isUnknown_of_mapM hrefs'
      · cases hb
  · cases h

theorem Resolves.declared {r : Roster α} (h : Resolves s r) : s.Declared := by
  refine ⟨fun e he => ?_, fun e he => ?_, fun e he => ?_⟩
  · obtain ⟨z, -, -, -, -, hproducer⟩ := forall₂_exists_mem h.zones.flip he
    exact Producer.declared_of_resolve? hproducer
  · obtain ⟨c, -, -, -, -, -, hproducer, hrefs⟩ := forall₂_exists_mem h.climates.flip he
    exact ⟨Directory.subset_of_mapM hrefs, Producer.declared_of_resolve? hproducer⟩
  · obtain ⟨b, -, -, -, -, -, -, -, hrefs, hrefs'⟩ := forall₂_exists_mem h.biomes.flip he
    exact ⟨Directory.subset_of_mapM hrefs, Directory.subset_of_mapM hrefs'⟩

/-- Settings resolve exactly when nothing is wrong with their names and weights. -/
theorem exists_resolve?_iff : (∃ r, resolve? s = .ok r) ↔ s.Distinct ∧ s.Shares ∧ s.Declared := by
  constructor
  · rintro ⟨r, hr⟩
    have hr := resolve?_ok hr
    exact ⟨⟨nodup_of_checkUnique hr.zonesUnique, nodup_of_checkUnique hr.climatesUnique,
      nodup_of_checkUnique hr.biomesUnique⟩, ⟨hr.zones_ne_nil, hr.total_pos⟩, hr.declared⟩
  · rintro ⟨hnames, hshares, hdeclared⟩
    refine exists_resolve? hnames.zones hnames.climates hnames.biomes hshares.1 hshares.2
      (fun e he => Producer.exists_resolve? (hdeclared.zones e he))
      (fun e he => ?_) (fun e he => ?_)
    · obtain ⟨hrefs, hproducer⟩ := hdeclared.climates e he
      exact ⟨Directory.exists_mapM_resolve? hrefs, Producer.exists_resolve? hproducer⟩
    · obtain ⟨hrefs, hrefs'⟩ := hdeclared.biomes e he
      exact ⟨Directory.exists_mapM_resolve? hrefs, Directory.exists_mapM_resolve? hrefs'⟩

/-- Settings that do not resolve are refused as such, and for an unknown name only when nothing else
is wrong with them. -/
theorem resolve?_eq_error (h : resolve? s = .error e) :
    (∃ f, e = .settings f) ∧ (e.IsUnknown ↔ s.Distinct ∧ s.Shares) := by
  have hknown {f : SettingsFault} (he : e = .settings f)
      (hf : ∀ kind name, f ≠ .unknownReference kind name) (hs : ¬(s.Distinct ∧ s.Shares)) :
      (∃ f, e = .settings f) ∧ (e.IsUnknown ↔ s.Distinct ∧ s.Shares) := by
    refine ⟨⟨f, he⟩, iff_of_false ?_ hs⟩
    rintro ⟨kind, name, hname⟩
    exact hf kind name (Fault.settings.inj (he.symm.trans hname))
  rcases bind_eq_error.mp h with hzones | ⟨_, hzones, h⟩
  · obtain ⟨hnot, repeated, he⟩ := checkUnique_eq_error hzones
    exact hknown he (fun _ _ => SettingsFault.noConfusion) fun hs => hnot hs.1.zones
  rcases bind_eq_error.mp h with hclimates | ⟨_, hclimates, h⟩
  · obtain ⟨hnot, repeated, he⟩ := checkUnique_eq_error hclimates
    exact hknown he (fun _ _ => SettingsFault.noConfusion) fun hs => hnot hs.1.climates
  rcases bind_eq_error.mp h with hbiomes | ⟨_, hbiomes, h⟩
  · obtain ⟨hnot, repeated, he⟩ := checkUnique_eq_error hbiomes
    exact hknown he (fun _ _ => SettingsFault.noConfusion) fun hs => hnot hs.1.biomes
  by_cases hempty : s.zones = []
  · simp only [link?, hempty, List.isEmpty_nil, if_true, throw_eq_error, error_bind] at h
    exact hknown (Except.error.inj h).symm (fun _ _ => SettingsFault.noConfusion)
      fun hs => hs.2.1 hempty
  by_cases htotal : Scalar.le (Scalar.sum (s.zones.map (·.2.heightWeight))) 0.0 = true
  · have hsome : s.zones.isEmpty = false := by simpa using hempty
    simp only [link?, hsome, htotal, Bool.false_eq_true, if_false, if_true, throw_eq_error,
      error_bind] at h
    refine hknown (Except.error.inj h).symm (fun _ _ => SettingsFault.noConfusion) fun hs => ?_
    rw [hs.2.2] at htotal
    exact Bool.false_ne_true htotal
  · have hshares : s.Shares := ⟨hempty, by simpa using htotal⟩
    obtain ⟨kind, name, he⟩ := link?_isUnknown hshares h
    refine ⟨⟨_, he⟩, iff_of_true ⟨kind, name, he⟩ ⟨⟨?_, ?_, ?_⟩, hshares⟩⟩
    · exact nodup_of_checkUnique hzones
    · exact nodup_of_checkUnique hclimates
    · exact nodup_of_checkUnique hbiomes

end Roster
end TileWorld
