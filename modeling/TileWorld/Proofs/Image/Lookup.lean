import Mathlib.Tactic
import TileWorld.Image.Palette
import TileWorld.Proofs.Outcome

/-! Numbers drawn through a table of colours, against the palette the table is made from. The table
gives every number from zero up its own colour, and those without one the missing colour. Numbers
below zero count from the table's end. -/
namespace TileWorld

namespace Colour

def components (c : Colour) : List ℤ := [c.red.toNat, c.green.toNat, c.blue.toNat]

theorem component?_byte (b : UInt8) : component? b.toNat = .ok b := by
  have hlt := b.toNat_lt
  rw [component?, if_pos ⟨Int.natCast_nonneg _, by omega⟩, Int.toNat_natCast]
  exact congrArg Except.ok (UInt8.ofNat_toNat)

theorem ofComponents?_components (c : Colour) : ofComponents? c.components = .ok c := by
  simp [ofComponents?, components, component?_byte]

end Colour

namespace Palette

/-- The palette that gives numbers colours of three bytes. -/
def ofColours (colours : List (ℤ × Colour)) : Palette := colours.map fun (n, c) => (n, c.components)

/-- The colour that a number is listed with, or the missing one. -/
def listed (colours : List (ℤ × Colour)) (n : ℤ) : Colour := (colours.lookup n).getD .missing

theorem lookup_eq_none {colours : List (ℤ × Colour)} {n : ℤ} (h : n ∉ colours.map Prod.fst) :
    colours.lookup n = none := by
  rw [List.lookup_eq_none_iff]
  exact fun e he => bne_iff_ne.mpr fun hne => h (hne ▸ List.mem_map_of_mem he)

section Size

theorem le_foldl_max (entries : Palette) (most : ℤ) :
    most ≤ entries.foldl (fun most e => max most e.1) most ∧
      ∀ e ∈ entries, e.1 ≤ entries.foldl (fun most e => max most e.1) most := by
  induction entries generalizing most with
  | nil => exact ⟨le_rfl, by simp⟩
  | cons e rest ih =>
    obtain ⟨hmost, hrest⟩ := ih (max most e.1)
    rw [List.foldl_cons, List.forall_mem_cons]
    exact ⟨(le_max_left _ _).trans hmost, (le_max_right _ _).trans hmost, hrest⟩

theorem lt_size {p : Palette} {e : ℤ × List ℤ} (he : e ∈ p) : e.1 < p.size := by
  obtain ⟨first, rest, rfl⟩ := List.exists_cons_of_ne_nil (List.ne_nil_of_mem he)
  obtain ⟨hfirst, hrest⟩ := le_foldl_max rest first.1
  rw [size, Int.lt_add_one_iff]
  rcases List.mem_cons.mp he with rfl | he
  · exact hfirst
  · exact hrest e he

theorem size_pos {p : Palette} (h : ∀ e ∈ p, 0 ≤ e.1) : 0 < p.size := by
  cases p with
  | nil => exact one_pos
  | cons e rest => exact (h e List.mem_cons_self).trans_lt (lt_size List.mem_cons_self)

end Size

section Table
variable {colours : List (ℤ × Colour)}

/-- Colours put into a table stand at their numbers; what no colour is put over stays. -/
theorem store?_ofColours {table : Array Colour} (hkeys : (colours.map Prod.fst).Nodup)
    (hfit : ∀ e ∈ colours, 0 ≤ e.1 ∧ e.1 < table.size) :
    ∃ table', store? (ofColours colours) table = .ok table' ∧ table'.size = table.size ∧
      ∀ (k : ℕ) (hk : k < table.size),
        table'[k]? = some ((colours.lookup (k : ℤ)).getD table[k]) := by
  induction colours generalizing table with
  | nil => exact ⟨table, rfl, rfl, fun k hk => Array.getElem?_eq_getElem hk⟩
  | cons e rest ih =>
    obtain ⟨n, c⟩ := e
    rw [List.map_cons, List.nodup_cons] at hkeys
    rw [List.forall_mem_cons] at hfit
    obtain ⟨hnew, hkeys⟩ := hkeys
    obtain ⟨⟨hlow, hhigh⟩, hfit⟩ := hfit
    obtain ⟨i, rfl⟩ := Int.eq_ofNat_of_zero_le hlow
    have hi : i < table.size := Int.ofNat_lt.mp hhigh
    have hplace : position? table.size i = some ⟨i, hi⟩ := by simp [position?, hi]
    obtain ⟨table', hstore, hsize, hcells⟩ :=
      @ih (table.set i c) hkeys (by rwa [Array.size_set])
    rw [Array.size_set] at hsize
    refine ⟨table', ?_, hsize, fun k hk => ?_⟩
    · show store? (((i : ℤ), c.components) :: ofColours rest) table = .ok table'
      simp only [store?, hplace, Colour.ofComponents?_components, ok_bind]
      exact hstore
    · rw [hcells k (by rwa [Array.size_set]), List.lookup_cons, Array.getElem_set]
      by_cases hki : i = k
      · subst hki
        rw [lookup_eq_none hnew, if_pos rfl, beq_self_eq_true]
        rfl
      · have hne : ((k : ℤ) == (i : ℤ)) = false :=
          beq_false_of_ne fun heq => hki (Int.ofNat_inj.mp heq).symm
        rw [if_neg hki, hne]

variable (hkeys : (colours.map Prod.fst).Nodup) (hnonneg : ∀ e ∈ colours, 0 ≤ e.1)

include hnonneg in
theorem size_ofColours_pos : 0 < (ofColours colours).size := by
  refine size_pos fun e he => ?_
  obtain ⟨e', he', rfl⟩ := List.mem_map.mp he
  exact hnonneg e' he'

include hkeys hnonneg

/-- The table of a palette gives each of its rows the colour listed for the row. -/
theorem table?_ofColours :
    ∃ table, (ofColours colours).table? = .ok table ∧ (table.size : ℤ) = (ofColours colours).size ∧
      ∀ k : ℕ, k < table.size → table[k]? = some (listed colours k) := by
  have hsize := size_ofColours_pos hnonneg
  obtain ⟨size, hcount⟩ := Int.eq_ofNat_of_zero_le hsize.le
  have hfit : ∀ e ∈ colours, 0 ≤ e.1 ∧ e.1 < (Array.replicate size Colour.missing).size := by
    intro e he
    have hlt : e.1 < (ofColours colours).size := lt_size (List.mem_map_of_mem he)
    rw [hcount] at hlt
    rw [Array.size_replicate]
    exact ⟨hnonneg e he, hlt⟩
  obtain ⟨table, hstore, hrows, hcells⟩ := store?_ofColours hkeys hfit
  rw [Array.size_replicate] at hrows
  refine ⟨table, ?_, by rw [hrows, hcount], fun k hk => ?_⟩
  · rw [table?, if_neg hsize.not_gt, hcount]
    exact hstore
  · rw [hcells k (by rwa [Array.size_replicate, ← hrows]), Array.getElem_replicate]
    rfl

end Table

/-- What a number is drawn in: from zero up the colour listed for it, below zero the one listed for
the number as many places before the end of the table. -/
def drawn? (colours : List (ℤ × Colour)) (n : ℤ) : Except Fault Colour :=
  if 0 ≤ n then .ok (listed colours n)
  else if 0 ≤ n + (ofColours colours).size then .ok (listed colours (n + (ofColours colours).size))
  else .error .outOfRange

section Drawing
variable {colours : List (ℤ × Colour)} (hkeys : (colours.map Prod.fst).Nodup)
  (hnonneg : ∀ e ∈ colours, 0 ≤ e.1)

theorem listed_of_size_le {n : ℤ} (hn : (ofColours colours).size ≤ n) :
    listed colours n = .missing := by
  have hnew : n ∉ colours.map Prod.fst := by
    intro hmem
    obtain ⟨e, he, rfl⟩ := List.mem_map.mp hmem
    have hlt : e.1 < (ofColours colours).size := lt_size (List.mem_map_of_mem he)
    exact hlt.not_ge hn
  rw [listed, lookup_eq_none hnew]
  rfl

theorem colour?_eq_drawn? {table : Array Colour}
    (hsize : (table.size : ℤ) = (ofColours colours).size)
    (hcells : ∀ k : ℕ, k < table.size → table[k]? = some (listed colours k)) (n : ℤ) :
    colour? table n = drawn? colours n := by
  have hrow {m : ℤ} (hm : 0 ≤ m) (hlt : m.toNat < table.size) :
      table[m.toNat] = listed colours m := by
    rw [← Option.some_inj, ← Array.getElem?_eq_getElem hlt, hcells m.toNat hlt,
      Int.toNat_of_nonneg hm]
  rw [colour?, drawn?, ← hsize]
  by_cases hbeyond : (table.size : ℤ) ≤ n
  · rw [if_pos hbeyond, if_pos (by omega), listed_of_size_le (hsize ▸ hbeyond)]
  rw [if_neg hbeyond]
  by_cases hn : 0 ≤ n
  · have hplace : position? table.size n = some ⟨n.toNat, by omega⟩ := dif_pos ⟨hn, by omega⟩
    rw [if_pos hn, hplace]
    exact congrArg Except.ok (hrow hn (by omega))
  rw [if_neg hn]
  by_cases hend : 0 ≤ n + table.size
  · have hplace : position? table.size n = some ⟨(n + table.size).toNat, by omega⟩ := by
      rw [position?, dif_neg (by omega), dif_pos ⟨by omega, hend⟩]
    rw [if_pos hend, hplace]
    exact congrArg Except.ok (hrow hend (by omega))
  · have hplace : position? table.size n = none := by
      rw [position?, dif_neg (by omega), dif_neg (by omega)]
    rw [if_neg hend, hplace]

/-- An integer of up to 64 bits, signed or not, as a signed word. -/
def word (n : ℤ) : ℤ := if n < -least then n else n - 0x10000000000000000

theorem number_int {n : ℤ} (hlow : least ≤ n) (hhigh : n < 0x10000000000000000) :
    number (.int n) = word n := by
  simp only [word, least] at hlow ⊢
  rw [number, Int.bmod_def]
  split_ifs
  all_goals omega

/-- A word that is not below zero is the integer itself. -/
theorem word_eq_self {n : ℤ} (hhigh : n < 0x10000000000000000) (h : 0 ≤ word n) : word n = n := by
  unfold word at h ⊢
  split_ifs at h ⊢
  · rfl
  · omega

include hnonneg in
theorem exists_drawn?_iff {n : ℤ} :
    (∃ c, drawn? colours n = .ok c) ↔ 0 ≤ n + (ofColours colours).size := by
  have hsize := size_ofColours_pos hnonneg
  unfold drawn?
  split_ifs with hn hend
  · exact iff_of_true ⟨_, rfl⟩ (by omega)
  · exact iff_of_true ⟨_, rfl⟩ hend
  · exact iff_of_false (by simp) hend

/-- Only from zero up does a number get what is listed for it, but by chance. -/
theorem drawn?_word_iff {n : ℤ} (hn : n < 0x10000000000000000) :
    drawn? colours (word n) = .ok (listed colours n) ↔ 0 ≤ word n ∨
      0 ≤ word n + (ofColours colours).size ∧
        listed colours (word n + (ofColours colours).size) = listed colours n := by
  unfold drawn?
  split_ifs with hword hend
  · rw [word_eq_self hn hword]
    exact iff_of_true rfl (Or.inl (word_eq_self hn hword ▸ hword))
  · simp [hword, hend]
  · simp [hword, hend]

include hkeys hnonneg

/-- Cells are drawn one by one. -/
theorem image?_ofColours (rows : List (List Value)) : (ofColours colours).image? rows =
    rows.mapM fun row => row.mapM fun v => drawn? colours (number v) := by
  obtain ⟨table, htable, hsize, hcells⟩ := table?_ofColours hkeys hnonneg
  simp only [image?, htable, ok_bind, colour?_eq_drawn? hsize hcells]

/-- Integers are drawn through the table, whatever their type. Those that are not below zero as
signed words get the colours listed for them, or the missing one. The others are taken for places
before the table's end: there is a picture when the table reaches back to all of them, and it shows
what is listed when each happens to meet the colour it should have. -/
theorem drawn_as_listed_iff {rows : List (List ℤ)}
    (hrows : ∀ row ∈ rows, ∀ n ∈ row, least ≤ n ∧ n < 0x10000000000000000) :
    ((ofColours colours).image? (rows.map (List.map .int)) =
        rows.mapM fun row => row.mapM fun n => drawn? colours (word n)) ∧
      ((∃ image, (ofColours colours).image? (rows.map (List.map .int)) = .ok image) ↔
        ∀ row ∈ rows, ∀ n ∈ row, 0 ≤ word n + (ofColours colours).size) ∧
      ((ofColours colours).image? (rows.map (List.map .int)) =
          .ok (rows.map (List.map (listed colours))) ↔
        ∀ row ∈ rows, ∀ n ∈ row, 0 ≤ word n ∨ 0 ≤ word n + (ofColours colours).size ∧
          listed colours (word n + (ofColours colours).size) = listed colours n) := by
  have hdrawn : (ofColours colours).image? (rows.map (List.map .int)) =
      rows.mapM fun row => row.mapM fun n => drawn? colours (word n) := by
    rw [image?_ofColours hkeys hnonneg, List.mapM_map]
    refine mapM_congr fun row hrow => ?_
    show (row.map Value.int).mapM _ = _
    rw [List.mapM_map]
    refine mapM_congr fun n hn => ?_
    obtain ⟨hlow, hhigh⟩ := hrows row hrow n hn
    show drawn? colours (number (.int n)) = _
    rw [number_int hlow hhigh]
  refine ⟨hdrawn, ?_, ?_⟩
  · simp only [hdrawn, exists_mapM_ok_iff, exists_drawn?_iff hnonneg]
  · rw [hdrawn, mapM_eq_ok_map]
    refine forall₂_congr fun row hrow => ?_
    rw [mapM_eq_ok_map]
    exact forall₂_congr fun n hn => drawn?_word_iff (hrows row hrow n hn).2

end Drawing

/-- One colour, for the number zero. -/
def oneColour : List (ℤ × Colour) := [(0, ⟨1, 2, 3⟩)]

/-- The number just below zero meets the only colour, and the one below that meets nothing. -/
theorem drawn_as_listed_iff_sample :
    (ofColours oneColour).image? [[.int 0, .int 7]] = .ok [[⟨1, 2, 3⟩, .missing]] ∧
      (ofColours oneColour).image? [[.int (-1)]] ≠ .ok [[.missing]] ∧
      ¬∃ image, (ofColours oneColour).image? [[.int (-2)]] = .ok image := by
  have hkeys : (oneColour.map Prod.fst).Nodup := by decide
  have hnonneg : ∀ e ∈ oneColour, 0 ≤ e.1 := by decide
  obtain ⟨-, -, hshown⟩ := @drawn_as_listed_iff oneColour hkeys hnonneg [[0, 7]] (by decide)
  obtain ⟨-, -, hlast⟩ := @drawn_as_listed_iff oneColour hkeys hnonneg [[-1]] (by decide)
  obtain ⟨-, hreturns, -⟩ := @drawn_as_listed_iff oneColour hkeys hnonneg [[-2]] (by decide)
  refine ⟨hshown.mpr (by decide), fun himage => ?_, fun himage => ?_⟩
  · exact absurd (hlast.mp himage) (by decide)
  · exact absurd (hreturns.mp himage) (by decide)

end Palette
end TileWorld
