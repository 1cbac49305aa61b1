import TileWorld.Proofs.World.Layers
import TileWorld.Proofs.World.Zones

/-! The biome of a single cell, decided without a map: the layers of its zone that cover the cell,
the last of which counts. Maps hold what this rule gives. -/
namespace TileWorld.Generator
variable {α : Type} [Scalar α] [NoiseSource α] [SquareRoot α]

/-- The position that a producer gives a cell of an area. -/
def producerAt? (g : Generator α) (area : Context) (p : Producer α) (x y : Int) :
    Except Fault Nat := do
  let rough ← g.transition.bake area area.toWindow
  p.biomeAt? area.toWindow rough x y

/-- Whether the biome at a position settles on a cell of an area. -/
def settlesAt? (g : Generator α) (area : Context) (k : Nat) (x y : Int) : Except Fault Bool :=
  match g.biomes[k]? with
  | none => .error .outOfRange
  | some b => do
    let worldHeight ← Scalar.ofInt? g.world.height
    let selection ← b.selection.bake area area.toWindow
    selects? b worldHeight g.heightTransition selection x y

/-- A biome replaces what is below it where it settles. -/
def biomeOver? (g : Generator α) (area : Context) (x y : Int) (below k : Nat) :
    Except Fault Nat := do
  pure (if ← g.settlesAt? area k x y then k else below)

/-- The position that a producer and the biomes over it give a cell of an area. -/
def biomeIn? (g : Generator α) (area : Context) (p : Producer α) (biomes : List Nat) (x y : Int) :
    Except Fault Nat := do
  biomes.foldlM (g.biomeOver? area x y) (← g.producerAt? area p x y)

/-- A climate replaces what is below it where its columns and outline hold the cell. -/
def climateOver? (g : Generator α) (z : Zone α) (x y : Int) (below : Nat)
    (climate : Nat × Interval) : Except Fault Nat :=
  match g.climates[climate.1]? with
  | none => .error .outOfRange
  | some c => do
    let area ← Context.ofClimate? g.world z.rows climate.2 c.depth
    if area.contains x y then
      if ← within? area.toWindow (some c.shape) x y then g.biomeIn? area c.producer c.biomes x y
      else pure below
    else pure below

/-- The position that a zone gives one of its cells. -/
def biomeOn? (g : Generator α) (z : Zone α) (x y : Int) : Except Fault Nat := do
  let below ← g.biomeIn? (Context.ofZone g.world z.rows) z.producer z.biomes x y
  z.climates.foldlM (g.climateOver? z x y) below

/-- The position that the zone of its row gives a cell. -/
def biomeAt? (g : Generator α) (x y : Int) : Except Fault Nat :=
  match g.zones.find? (·.rows.contains y) with
  | none => .error .outOfRange
  | some z => g.biomeOn? z x y

/-- Maps that hold at every cell of the world what the rule gives that cell. -/
def FollowsRule (g : Generator α) (map : Grid) : Prop :=
  ∀ x y, 0 ≤ x → x < g.world.width → 0 ≤ y → y < g.world.height →
    ∃ k : Nat, g.biomeAt? x y = .ok k ∧ map.get? x y = .ok (.int k)

section Rule
variable {g : Generator α} {area : Context} {x y : Int}

omit [SquareRoot α] in
/-- The stamp of a biome on an area, written out: selection ≤ ratio * bias of y / world height. -/
theorem settlesAt?_eq_ok {k : Nat} {settles : Bool} : g.settlesAt? area k x y = .ok settles ↔
    ∃ b worldHeight selection row height bias v, g.biomes[k]? = some b ∧
      Scalar.ofInt? g.world.height = .ok worldHeight ∧
      b.selection.bake area area.toWindow = .ok selection ∧
      Scalar.ofInt? y = .ok row ∧ Scalar.divide? row worldHeight = .ok height ∧
      heightBias? height b.heightRange g.heightTransition = .ok bias ∧
      selection x y = .ok v ∧ settles = Scalar.le v (b.ratio * bias) := by
  unfold settlesAt?
  cases hb : g.biomes[k]? with
  | none => simp
  | some b =>
    simp only [bind_eq_ok, selects?_eq_ok, Option.some.injEq]
    constructor
    · rintro ⟨worldHeight, hworld, selection, hselection, row, height, bias, v, hrest⟩
      exact ⟨b, worldHeight, selection, row, height, bias, v, rfl, hworld, hselection, hrest⟩
    · rintro ⟨_, worldHeight, selection, row, height, bias, v, rfl, hworld, hselection, hrest⟩
      exact ⟨worldHeight, hworld, selection, hselection, row, height, bias, v, hrest⟩

omit [NoiseSource α] in
theorem within?_eq_ok {area : Window} {shape : Shape α} {inside : Bool} :
    within? area (some shape) x y = .ok inside ↔
      ∃ across down, area.columns.local? x = .ok across ∧ area.rows.local? y = .ok down ∧
        shape.inside? across down = .ok inside := by
  simp only [within?, bind_eq_ok]
  constructor
  · rintro ⟨across, hacross, down, hdown, hinside⟩
    exact ⟨across, down, hacross, hdown, hinside⟩
  · rintro ⟨across, down, hacross, hdown, hinside⟩
    exact ⟨across, hacross, down, hdown, hinside⟩

variable {z : Zone α} {below k : Nat}

theorem ite_contains_eq_ok {c : Climate α} : (if area.contains x y then do
      if ← within? area.toWindow (some c.shape) x y then g.biomeIn? area c.producer c.biomes x y
      else pure below
    else pure below) = .ok k ↔
      if (area.columns.start ≤ x ∧ x < area.columns.stop) ∧
          area.rows.start ≤ y ∧ y < area.rows.stop then
        ∃ across down inside, area.columns.local? x = .ok across ∧ area.rows.local? y = .ok down ∧
          c.shape.inside? across down = .ok inside ∧
          if inside then g.biomeIn? area c.producer c.biomes x y = .ok k else k = below
      else k = below := by
  simp only [Window.contains_iff]
  split_ifs with hxy
  · simp only [bind_eq_ok, within?_eq_ok]
    constructor
    · rintro ⟨inside, ⟨across, down, hacross, hdown, hinside⟩, h⟩
      refine ⟨across, down, inside, hacross, hdown, hinside, ?_⟩
      cases inside with
      | true => exact h
      | false => exact (Except.ok.inj h).symm
    · rintro ⟨across, down, inside, hacross, hdown, hinside, h⟩
      refine ⟨inside, ⟨across, down, hacross, hdown, hinside⟩, ?_⟩
      cases inside with
      | true => exact h
      | false => exact congrArg Except.ok h.symm
  · simp [eq_comm]

/-- The rectangle of a climate, written out: its columns by the top int(rows * depth) rows of the
zone. A cell of it that lies in the outline takes what the climate has there; all others keep what
is below. -/
theorem climateOver?_eq_ok {j : Nat} {columns : Interval} :
    g.climateOver? z x y below (j, columns) = .ok k ↔
      ∃ c count height area, g.climates[j]? = some c ∧ z.rows.count ≤ Context.maxRows ∧
        Scalar.ofInt? z.rows.count = .ok count ∧ Scalar.truncate? (count * c.depth) = .ok height ∧
        area = ⟨⟨columns, ⟨z.rows.start, z.rows.start + height⟩⟩, g.world⟩ ∧
        if (columns.start ≤ x ∧ x < columns.stop) ∧
            z.rows.start ≤ y ∧ y < z.rows.start + height then
          ∃ across down inside, columns.local? x = .ok across ∧ area.rows.local? y = .ok down ∧
            c.shape.inside? across down = .ok inside ∧
            if inside then g.biomeIn? area c.producer c.biomes x y = .ok k else k = below
        else k = below := by
  unfold climateOver?
  cases hc : g.climates[j]? with
  | none => simp
  | some c =>
    simp only [bind_eq_ok, Context.ofClimate?_eq_ok, Scalar.scale?, ite_contains_eq_ok,
      Option.some.injEq]
    constructor
    · rintro ⟨area, ⟨hcount, height, ⟨count, hfits, hheight⟩, rfl⟩, h⟩
      exact ⟨c, count, height, _, rfl, hcount, hfits, hheight, rfl, h⟩
    · rintro ⟨_, count, height, area, rfl, hcount, hfits, hheight, rfl, h⟩
      exact ⟨_, ⟨hcount, height, ⟨count, hfits, hheight⟩, rfl⟩, h⟩

end Rule

section Inks
variable {g : Generator α} {area : Context} {outline : Option (Shape α)} {x y : Int} {v w : Value}

theorem overlay?_producer {p : Producer α}
    (h : g.overlay? area outline x y v (.producer p) = .ok w) :
    ∃ inside, within? area.toWindow outline x y = .ok inside ∧
      (inside = true → ∃ k, g.producerAt? area p x y = .ok k ∧ w = .int k) ∧
      (inside = false → w = v) := by
  simp only [overlay?, layer?, producerLayer?, bind_eq_ok, pure_eq_ok, Except.ok.injEq] at h
  obtain ⟨_, ⟨rough, hrough, rfl⟩, o, ho, hw⟩ := h
  obtain ⟨inside, hinside, ho⟩ := bind_eq_ok.mp ho
  refine ⟨inside, hinside, ?_, ?_⟩
  · rintro rfl
    obtain ⟨k, hk, rfl⟩ := map_eq_ok.mp ho
    refine ⟨k, ?_, (CellType.cast?_position.mp hw).2⟩
    simpa [producerAt?, hrough] using hk
  · rintro rfl
    obtain rfl : none = o := by simpa using ho
    simpa [eq_comm] using hw

theorem overlay?_biome {k : Nat} (h : g.overlay? area outline x y v (.biome k) = .ok w) :
    ∃ inside, within? area.toWindow outline x y = .ok inside ∧
      (inside = true → ∃ settles, g.settlesAt? area k x y = .ok settles ∧
        w = if settles then .int k else v) ∧
      (inside = false → w = v) := by
  simp only [overlay?, layer?, biomeLayer?] at h
  cases hb : g.biomes[k]? with
  | none => simp [hb] at h
  | some b =>
    simp only [hb, bind_eq_ok, pure_eq_ok, Except.ok.injEq] at h
    obtain ⟨_, ⟨height, hheight, selection, hselection, rfl⟩, o, ho, hw⟩ := h
    obtain ⟨inside, hinside, ho⟩ := bind_eq_ok.mp ho
    refine ⟨inside, hinside, ?_, ?_⟩
    · rintro rfl
      obtain ⟨settles, hsettles, ho⟩ := bind_eq_ok.mp ho
      refine ⟨settles, by simpa [settlesAt?, hb, hheight, hselection] using hsettles, ?_⟩
      cases settles with
      | true =>
        obtain rfl : some k = o := by simpa using ho
        exact (CellType.cast?_position.mp hw).2
      | false =>
        obtain rfl : none = o := by simpa using ho
        simpa [eq_comm] using hw
    · rintro rfl
      obtain rfl : none = o := by simpa using ho
      simpa [eq_comm] using hw

theorem overlay?_outside {ink : Ink α} (houtside : within? area.toWindow outline x y = .ok false)
    (h : g.overlay? area outline x y v ink = .ok w) : w = v := by
  cases ink with
  | producer p =>
    obtain ⟨inside, hinside, -, hkeep⟩ := overlay?_producer h
    exact hkeep (Except.ok.inj (hinside.symm.trans houtside))
  | biome k =>
    obtain ⟨inside, hinside, -, hkeep⟩ := overlay?_biome h
    exact hkeep (Except.ok.inj (hinside.symm.trans houtside))

theorem foldlM_overlay?_outside {inks : List (Ink α)}
    (houtside : within? area.toWindow outline x y = .ok false)
    (h : inks.foldlM (g.overlay? area outline x y) v = .ok w) : w = v := by
  induction inks generalizing v with
  | nil => simpa [eq_comm] using h
  | cons ink rest ih =>
    rw [List.foldlM_cons] at h
    obtain ⟨u, hu, h⟩ := bind_eq_ok.mp h
    rw [ih h, overlay?_outside houtside hu]

theorem foldlM_overlay?_biomes {biomes : List Nat} {below : Nat}
    (hinside : within? area.toWindow outline x y = .ok true)
    (h : (biomes.map Ink.biome).foldlM (g.overlay? area outline x y) (.int below) = .ok w) :
    ∃ k, biomes.foldlM (g.biomeOver? area x y) below = .ok k ∧ w = .int k := by
  induction biomes generalizing below with
  | nil =>
    obtain rfl : Value.int below = w := by simpa using h
    exact ⟨below, rfl, rfl⟩
  | cons k rest ih =>
    rw [List.map_cons, List.foldlM_cons] at h
    obtain ⟨u, hu, h⟩ := bind_eq_ok.mp h
    obtain ⟨inside, hinside', hcover, -⟩ := overlay?_biome hu
    obtain ⟨settles, hsettles, rfl⟩ := hcover (Except.ok.inj (hinside'.symm.trans hinside))
    have hover : g.biomeOver? area x y below k = .ok (if settles then k else below) := by
      simp [biomeOver?, hsettles]
    have hvalue : (if settles then Value.int k else .int below) =
        .int ((if settles then k else below : Nat) : Int) := by
      cases settles <;> rfl
    rw [hvalue] at h
    rw [List.foldlM_cons, hover, ok_bind]
    exact ih h

/-- The inks of an area give the cells inside its outline the rule's position, and keep the rest. -/
theorem foldlM_overlay?_inks {p : Producer α} {biomes : List Nat}
    (h : (inks p biomes).foldlM (g.overlay? area outline x y) v = .ok w) :
    ∃ inside, within? area.toWindow outline x y = .ok inside ∧
      (inside = true → ∃ k, g.biomeIn? area p biomes x y = .ok k ∧ w = .int k) ∧
      (inside = false → w = v) := by
  have hall := h
  rw [inks, List.foldlM_cons] at h
  obtain ⟨u, hu, h⟩ := bind_eq_ok.mp h
  obtain ⟨inside, hinside, hcover, -⟩ := overlay?_producer hu
  refine ⟨inside, hinside, ?_, ?_⟩
  · rintro rfl
    obtain ⟨below, hbelow, rfl⟩ := hcover rfl
    obtain ⟨k, hk, rfl⟩ := foldlM_overlay?_biomes hinside h
    exact ⟨k, by simpa [biomeIn?, hbelow] using hk, rfl⟩
  · rintro rfl
    exact foldlM_overlay?_outside hinside hall

end Inks

section Maps
variable {g : Generator α} {grid grid' : Grid}

/-- One climate of a zone gives every cell what the rule makes of it, and changes none above the
zone. -/
theorem layClimate_ok {z : Zone α} {j : Nat} {columns : Interval} {c : Climate α} {area : Context}
    (htype : grid.cellType = .uint16) (hc : g.climates[j]? = some c)
    (harea : Context.ofClimate? g.world z.rows columns c.depth = .ok area)
    (h : (if area.isEmpty then .ok grid
      else g.lay? area (some c.shape) (inks c.producer c.biomes) grid) = .ok grid') :
    grid.AgreeOff (fun _ y => z.rows.start ≤ y) grid' ∧
      ∀ x y (below : Nat), grid.cell? x y = some (.int below) →
        ∃ k : Nat, g.climateOver? z x y below (j, columns) = .ok k ∧
          grid'.cell? x y = some (.int k) := by
  split_ifs at h with hempty
  · obtain rfl : grid = grid' := Except.ok.inj h
    refine ⟨Grid.AgreeOff.refl _ grid, fun x y below hcell => ⟨below, ?_, hcell⟩⟩
    have houtside := (Window.isEmpty_eq_true_iff area.toWindow).mp hempty x y
    simp [climateOver?, hc, harea, houtside]
  · obtain ⟨hagree, hcells⟩ := lay?_ok htype h
    constructor
    · refine hagree.mono fun x y hxy => ?_
      have hstart : area.rows.start = z.rows.start := by
        obtain ⟨-, height, -, rfl⟩ := Context.ofClimate?_eq_ok.mp harea
        rfl
      rw [← hstart]
      exact ((Window.contains_iff _ x y).mp hxy).2.1
    · intro x y below hcell
      by_cases hxy : area.contains x y = true
      · obtain ⟨w, hw, hcell'⟩ := hcells x y hxy _ hcell
        obtain ⟨inside, hinside, hcover, hkeep⟩ := foldlM_overlay?_inks hw
        cases inside with
        | true =>
          obtain ⟨k, hk, rfl⟩ := hcover rfl
          exact ⟨k, by simp [climateOver?, hc, harea, hxy, hinside, hk], hcell'⟩
        | false =>
          obtain rfl := hkeep rfl
          exact ⟨below, by simp [climateOver?, hc, harea, hxy, hinside], hcell'⟩
      · refine ⟨below, by simp [climateOver?, hc, harea, hxy], ?_⟩
        rw [hagree.cell? x y hxy]
        exact hcell

theorem layClimates_ok {z : Zone α} {climates : List (Nat × Interval)}
    (htype : grid.cellType = .uint16) (h : (g.layClimates z climates grid).outcome = .ok grid') :
    grid.AgreeOff (fun _ y => z.rows.start ≤ y) grid' ∧
      ∀ x y (below : Nat), grid.cell? x y = some (.int below) →
        ∃ k : Nat, climates.foldlM (g.climateOver? z x y) below = .ok k ∧
          grid'.cell? x y = some (.int k) := by
  induction climates generalizing grid with
  | nil =>
    obtain rfl : grid = grid' := by simpa [layClimates] using h
    exact ⟨Grid.AgreeOff.refl _ grid, fun x y below hcell => ⟨below, rfl, hcell⟩⟩
  | cons climate rest ih =>
    obtain ⟨j, columns⟩ := climate
    obtain ⟨c, hc, area, harea, next, hnext, hrest⟩ := layClimates_cons.mp h
    obtain ⟨hagree, hcells⟩ := layClimate_ok htype hc harea hnext
    obtain ⟨hagree', hcells'⟩ := ih (hagree.cellType.trans htype) hrest
    refine ⟨hagree.trans hagree', fun x y below hcell => ?_⟩
    obtain ⟨k, hk, hcell'⟩ := hcells x y below hcell
    obtain ⟨k', hk', hcell''⟩ := hcells' x y k hcell'
    refine ⟨k', ?_, hcell''⟩
    rw [List.foldlM_cons, hk, ok_bind]
    exact hk'

theorem layZone_ok {z : Zone α} {filled : Grid} (htype : grid.cellType = .uint16)
    (hfill : g.lay? (Context.ofZone g.world z.rows) none (inks z.producer z.biomes) grid =
      .ok filled)
    (h : (g.layClimates z z.climates filled).outcome = .ok grid') :
    grid.AgreeOff (fun _ y => z.rows.start ≤ y) grid' ∧
      ∀ x y, 0 ≤ x → x < g.world.width → z.rows.contains y = true →
        ∃ k : Nat, g.biomeOn? z x y = .ok k ∧ grid'.cell? x y = some (.int k) := by
  obtain ⟨hx₀, hy₀, hxw, hyh⟩ := lay?_holds (List.cons_ne_nil _ _) hfill
  obtain ⟨hagree, hcells⟩ := lay?_ok htype hfill
  obtain ⟨hagree', hcells'⟩ := layClimates_ok (hagree.cellType.trans htype) h
  constructor
  · refine (hagree.mono fun x y hxy => ?_).trans hagree'
    exact ((Window.contains_iff _ x y).mp hxy).2.1
  · intro x y hx hxw' hy
    have hrow := (Interval.contains_iff z.rows y).mp hy
    have hinArea : (Context.ofZone g.world z.rows).contains x y = true :=
      (Window.contains_iff _ x y).mpr ⟨⟨hx, hxw'⟩, hrow⟩
    have hinGrid : 0 ≤ x ∧ x < grid.width ∧ 0 ≤ y ∧ y < grid.height := by
      simp only [Context.ofZone] at hy₀ hxw hyh
      omega
    obtain ⟨v, hv⟩ := Grid.exists_cell?.mpr hinGrid
    obtain ⟨w, hw, hcell⟩ := hcells x y hinArea v hv
    obtain ⟨inside, hinside, hcover, -⟩ := foldlM_overlay?_inks hw
    obtain ⟨below, hbelow, rfl⟩ := hcover (by simpa [within?, eq_comm] using hinside)
    obtain ⟨k, hk, hcell'⟩ := hcells' x y below hcell
    exact ⟨k, by simpa [biomeOn?, hbelow] using hk, hcell'⟩

/-- Zones laid from top to bottom give their cells the rule's positions, whatever the grid held.
No later zone reaches up into an earlier one. -/
theorem layZones_ok {zones : List (Zone α)} {top bottom : Int}
    (htiles : Interval.Tiles top bottom (zones.map (·.rows))) (htype : grid.cellType = .uint16)
    (h : (g.layZones zones grid).outcome = .ok grid') :
    grid.AgreeOff (fun _ y => top ≤ y) grid' ∧
      ∀ z ∈ zones, ∀ x y, 0 ≤ x → x < g.world.width → z.rows.contains y = true →
        ∃ k : Nat, g.biomeOn? z x y = .ok k ∧ grid'.cell? x y = some (.int k) := by
  induction zones generalizing grid top with
  | nil =>
    obtain rfl : grid = grid' := by simpa [layZones] using h
    exact ⟨Grid.AgreeOff.refl _ grid, by simp⟩
  | cons z rest ih =>
    obtain ⟨filled, hfill, covered, hcover, hrest⟩ := layZones_cons.mp h
    simp only [List.map_cons, Interval.Tiles] at htiles
    obtain ⟨rfl, hpos, htiles⟩ := htiles
    obtain ⟨hagree, hcells⟩ := layZone_ok htype hfill hcover
    obtain ⟨hagree', hcells'⟩ := ih htiles (hagree.cellType.trans htype) hrest
    refine ⟨hagree.trans (hagree'.mono fun _ y hy => by omega), fun z' hz' => ?_⟩
    rcases List.mem_cons.mp hz' with rfl | hz'
    · intro x y hx hxw hy
      obtain ⟨k, hk, hcell⟩ := hcells x y hx hxw hy
      refine ⟨k, hk, ?_⟩
      have hrow := (Interval.contains_iff z'.rows y).mp hy
      rw [hagree'.cell? x y (by omega)]
      exact hcell
    · exact hcells' z' hz'

theorem followsRule_of_layZones {s : Settings α} (hg : (build s).outcome = .ok g)
    (htype : grid.cellType = .uint16) (h : (g.layZones g.zones grid).outcome = .ok grid') :
    g.FollowsRule grid' := by
  obtain ⟨-, htiles⟩ := build_rows hg
  obtain ⟨-, hcells⟩ := layZones_ok htiles htype h
  intro x y hx hxw hy hyh
  rw [(build_settings hg).1] at hyh
  obtain ⟨j, ⟨r, hj, hr⟩, -⟩ := htiles.existsUnique hy hyh
  have hmem : r ∈ g.zones.map (·.rows) := List.mem_of_getElem? hj
  obtain ⟨z₀, hz₀, rfl⟩ := List.mem_map.mp hmem
  unfold biomeAt?
  cases hfind : g.zones.find? (·.rows.contains y) with
  | none => simpa [hr] using List.find?_eq_none.mp hfind z₀ hz₀
  | some z =>
    obtain ⟨k, hk, hcell⟩ := hcells z (List.mem_of_find?_eq_some hfind) x y hx hxw
      (by simpa using List.find?_some hfind)
    exact ⟨k, hk, Grid.get?_eq_ok.mpr hcell⟩

theorem placeBiomes_outcome :
    g.placeBiomes.outcome = .ok grid' ↔
      ∃ grid, Grid.new? g.world.width g.world.height (.int 0) .uint16 false = .ok grid ∧
        (g.layZones g.zones grid).outcome = .ok grid' := by
  rw [placeBiomes]
  simp only [Logged.outcome_bind, Logged.outcome_lift, Logged.outcome_note, ok_bind, bind_eq_ok]

theorem biomeMap_outcome : g.biomeMap.outcome = .ok grid' ↔ g.placeBiomes.outcome = .ok grid' := by
  simp [biomeMap, bind_eq_ok]

theorem followsRule_of_biomeMap {s : Settings α} (hg : (build s).outcome = .ok g)
    (hmap : g.biomeMap.outcome = .ok grid') : g.FollowsRule grid' := by
  obtain ⟨grid, hgrid, hlay⟩ := placeBiomes_outcome.mp (biomeMap_outcome.mp hmap)
  exact followsRule_of_layZones hg (Grid.new?_ok hgrid).1 hlay

end Maps

theorem exists_map_of_namedAsSample {s : Settings Float} (hs : s.NamedAsSample)
    (hmap : s.sampled?.toOption.any (·.placeBiomes.outcome.isOk) = true) :
    ∃ g map, (build s).outcome = .ok g ∧ g.placeBiomes.outcome = .ok map := by
  obtain ⟨g, hg, hmap⟩ := exists_build_of_namedAsSample hs (by decide) _ hmap
  obtain ⟨map, hmap⟩ := isOk_iff.mp hmap
  exact ⟨g, map, hg, hmap⟩

theorem exists_map_sample : ∃ (g : Generator Float) (map : Grid),
    (build Settings.sample).outcome = .ok g ∧ g.placeBiomes.outcome = .ok map :=
  exists_map_of_namedAsSample Settings.sample_named (by decide +kernel)

/-- The zones of the tiled sample, with whether they are left unpainted, and some of its cells. -/
theorem exists_map_tiled : ∃ (g : Generator Float) (map : Grid),
    (build Settings.tiled).outcome = .ok g ∧ g.placeBiomes.outcome = .ok map ∧
      g.zones.map (fun z => (z.rows, Scalar.same z.terrainSize 0.0)) =
        [(⟨0, 1⟩, true), (⟨1, 7⟩, false)] ∧
      g.biomeAt? 4 2 = .ok 0 ∧ g.biomeAt? 2 2 = .ok 1 ∧ g.biomeAt? 2 1 = .ok 0 := by
  obtain ⟨g, hg, hfacts⟩ := exists_build_of_namedAsSample Settings.tiled_named (by decide)
    (fun (g : Generator Float) => g.placeBiomes.outcome.isOk &&
      decide (g.zones.map (fun z => (z.rows, Scalar.same z.terrainSize 0.0)) =
          [(⟨0, 1⟩, true), (⟨1, 7⟩, false)] ∧
        g.biomeAt? 4 2 = .ok 0 ∧ g.biomeAt? 2 2 = .ok 1 ∧ g.biomeAt? 2 1 = .ok 0))
    (by decide +kernel)
  rw [Bool.and_eq_true, decide_eq_true_eq] at hfacts
  obtain ⟨hmap, hfacts⟩ := hfacts
  obtain ⟨map, hmap⟩ := isOk_iff.mp hmap
  exact ⟨g, map, hg, hmap, hfacts⟩

theorem FollowsRule.tiled_get?_eq {g : Generator Float} {map : Grid} (h : g.FollowsRule map)
    (hg : (build Settings.tiled).outcome = .ok g) {x y : Int} {k : Nat} (hx : 0 ≤ x ∧ x < 8)
    (hy : 0 ≤ y ∧ y < 7) (hk : g.biomeAt? x y = .ok k) : map.get? x y = .ok (.int k) := by
  have hworld : g.world = ⟨8, 7, 1⟩ := (build_settings hg).1
  obtain ⟨j, hj, hcell⟩ := h x y hx.1 (by rw [hworld]; exact hx.2) hy.1 (by rw [hworld]; exact hy.2)
  obtain rfl : k = j := Except.ok.inj (hk.symm.trans hj)
  exact hcell

/-- Every map of a generator holds at each cell what the rule gives that cell, whatever the grid
held that it was laid on. -/
theorem maps_follow_rule {s : Settings α} {g : Generator α} (hg : (build s).outcome = .ok g) :
    (∀ map, g.placeBiomes.outcome = .ok map → g.FollowsRule map) ∧
      ∀ grid map, grid.cellType = .uint16 → (g.layZones g.zones grid).outcome = .ok map →
        g.FollowsRule map := by
  constructor
  · intro map hmap
    obtain ⟨grid, hgrid, hmap⟩ := placeBiomes_outcome.mp hmap
    exact followsRule_of_layZones hg (Grid.new?_ok hgrid).1 hmap
  · intro grid map htype hmap
    exact followsRule_of_layZones hg htype hmap

/-- Of three cells of the lower zone one holds the moss of the zone itself. At the second, the stone
of the desert covers that moss; at the third, moss is stamped over the desert in turn. -/
theorem maps_follow_rule_sample : ∃ (g : Generator Float) (map : Grid),
    (build Settings.tiled).outcome = .ok g ∧ g.placeBiomes.outcome = .ok map ∧
      g.FollowsRule map ∧ map.get? 4 2 = .ok (.int 0) ∧ map.get? 2 2 = .ok (.int 1) ∧
      map.get? 2 1 = .ok (.int 0) := by
  obtain ⟨g, map, hg, hmap, -, hzone, hclimate, hstamp⟩ := exists_map_tiled
  have hfollows := (maps_follow_rule hg).1 map hmap
  exact ⟨g, map, hg, hmap, hfollows, hfollows.tiled_get?_eq hg (by decide) (by decide) hzone,
    hfollows.tiled_get?_eq hg (by decide) (by decide) hclimate,
    hfollows.tiled_get?_eq hg (by decide) (by decide) hstamp⟩

end TileWorld.Generator
