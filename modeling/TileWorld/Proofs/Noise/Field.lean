import Mathlib.Tactic
import TileWorld.Noise.Field
import TileWorld.Proofs.Outcome

/-! Fields of noise. Where noise has a value at every point, the field of a rectangle is made, has
the size of the rectangle, and is read at every cell of it. What a cell holds is the noise at its
own point, whatever the rectangle. -/
namespace TileWorld

theorem position?_of_lt {n : ℕ} {i : ℤ} (hi : 0 ≤ i) (hn : i < n) :
    position? n i = some ⟨i.toNat, by omega⟩ := by
  rw [position?, dif_pos ⟨hi, hn⟩]

namespace Field
variable {α : Type}

/-- A field that holds as many values as it has cells. -/
def Full (f : Field α) : Prop := f.values.size = f.height * f.width

theorem Full.map {f : Field α} (h : f.Full) {β : Type} (g : α → β) : (f.map g).Full := by
  rw [Full, Field.map, Array.size_map, h]

/-- Mapping a field maps what is read of it. -/
theorem get?_map {β : Type} (f : Field α) (g : α → β) (i j : ℤ) :
    (f.map g).get? i j = g <$> f.get? i j := by
  unfold get? map
  cases position? f.height j with
  | none => rfl
  | some row =>
    cases position? f.width i with
    | none => rfl
    | some column =>
      simp only [Array.getElem?_map]
      cases f.values[row.val * f.width + column.val]? <;> rfl

theorem place_lt {width height i j : ℕ} (hi : i < width) (hj : j < height) :
    j * width + i < height * width :=
  calc j * width + i < (j + 1) * width := by rw [Nat.succ_mul]; omega
    _ ≤ height * width := Nat.mul_le_mul_right _ hj

/-- Inside of a full field every cell is read. -/
theorem Full.exists_get? {f : Field α} (h : f.Full) {i j : ℤ} (hi : 0 ≤ i) (hi' : i < f.width)
    (hj : 0 ≤ j) (hj' : j < f.height) : ∃ v, f.get? i j = .ok v := by
  have hplace : j.toNat * f.width + i.toNat < f.values.size := by
    rw [h]
    exact place_lt (by omega) (by omega)
  refine ⟨f.values[j.toNat * f.width + i.toNat], ?_⟩
  simp only [get?, position?_of_lt hj hj', position?_of_lt hi hi', Array.getElem?_eq_getElem hplace]

theorem length_flatten_of_forall {rows : List (List α)} {n : ℕ} (h : ∀ r ∈ rows, r.length = n) :
    rows.flatten.length = rows.length * n := by
  have hlengths : rows.map List.length = List.replicate rows.length n := by
    rw [List.eq_replicate_iff, List.length_map, List.forall_mem_map]
    exact ⟨rfl, h⟩
  rw [List.length_flatten, hlengths, List.sum_replicate, smul_eq_mul]

/-- Rows of one length follow each other at multiples of it. -/
theorem getElem?_flatten {rows : List (List α)} {n : ℕ} (h : ∀ r ∈ rows, r.length = n)
    {row : List α} {i j : ℕ} (hj : rows[j]? = some row) (hi : i < n) :
    rows.flatten[j * n + i]? = row[i]? := by
  induction rows generalizing j with
  | nil => simp at hj
  | cons r rest ih =>
    obtain ⟨hr, hrest⟩ := List.forall_mem_cons.mp h
    rw [List.flatten_cons]
    cases j with
    | zero =>
      obtain rfl := Option.some.inj hj
      rw [Nat.zero_mul, Nat.zero_add, List.getElem?_append_left (by omega)]
    | succ j =>
      have hplace : (j + 1) * n + i - r.length = j * n + i := by
        rw [hr, Nat.succ_mul]
        omega
      rw [List.getElem?_append_right (by rw [hr, Nat.succ_mul]; omega), hplace]
      exact ih hrest hj

variable [Scalar α] [NoiseSource α]

/-- Noise that has a value at every point. -/
def Total (α : Type) [NoiseSource α] : Prop :=
  ∀ (table : NoiseSource.Table α) (x y : α), ∃ v, NoiseSource.value? table x y = .ok v

omit [Scalar α] [NoiseSource α] in
/-- Exact noise without bounds, which rises across and falls on the way down. -/
@[reducible] def plane : NoiseSource ℚ := ⟨Unit, fun _ => (), fun _ x y => .ok (x - y)⟩

omit [Scalar α] [NoiseSource α] in
theorem total_plane : @Total ℚ plane := fun _ x y => ⟨x - y, rfl⟩

omit [NoiseSource α] in
theorem exists_axis? {n : ℕ} (h : ∀ k < n, ∃ v : α, Scalar.ofInt? (k : ℤ) = .ok v)
    (start frequency : α) : ∃ xs, axis? start n frequency = .ok xs ∧ xs.length = n := by
  have hpoints : ∀ k ∈ List.range n, ∃ c,
      (do pure ((start + (← Scalar.ofInt? (k : ℤ))) * frequency) : Except Fault α) = .ok c ∧
        True := by
    intro k hk
    obtain ⟨v, hv⟩ := h k (List.mem_range.mp hk)
    exact ⟨_, by rw [hv, ok_bind, pure_eq_ok], trivial⟩
  obtain ⟨xs, hxs, hlength, -⟩ := exists_mapM hpoints
  exact ⟨xs, hxs, hlength.trans List.length_range⟩

omit [Scalar α] in
theorem exists_layer? (h : Total α) (table : NoiseSource.Table α) (xs ys : List α) :
    ∃ values, layer? table xs ys = .ok values ∧ values.length = ys.length * xs.length := by
  have hrow : ∀ y ∈ ys, ∃ row, (xs.mapM fun x => NoiseSource.value? table x y) = .ok row ∧
      row.length = xs.length := by
    intro y _
    have hpoint : ∀ x ∈ xs, ∃ v, NoiseSource.value? table x y = .ok v ∧ True := by
      intro x _
      obtain ⟨v, hv⟩ := h table x y
      exact ⟨v, hv, trivial⟩
    obtain ⟨row, hrow, hlength, -⟩ := exists_mapM hpoint
    exact ⟨row, hrow, hlength⟩
  obtain ⟨rows, hrows, hlength, hall⟩ := exists_mapM hrow
  refine ⟨rows.flatten, ?_, ?_⟩
  · rw [layer?, hrows, ok_bind, pure_eq_ok]
  · rw [length_flatten_of_forall hall, hlength]

theorem exists_fractal? (h : Total α) (table : NoiseSource.Table α) (xs ys : List α) :
    ∃ values, fractal? table xs ys = .ok values ∧ values.length = ys.length * xs.length := by
  have hsum (total : List α) (htotal : total.length = ys.length * xs.length) (os : List (α × α)) :
      ∃ sum, (os.foldlM (fun total (o : α × α) => do
        let next ← layer? table (xs.map (· * o.1)) (ys.map (· * o.1))
        pure (List.zipWith (fun t v => t + o.2 * v) total next)) total) = .ok sum ∧
          sum.length = ys.length * xs.length := by
    induction os generalizing total with
    | nil => exact ⟨total, rfl, htotal⟩
    | cons o rest ih =>
      obtain ⟨next, hnext, hlength⟩ := exists_layer? h table (xs.map (· * o.1)) (ys.map (· * o.1))
      rw [List.length_map, List.length_map] at hlength
      rw [List.foldlM_cons, hnext, ok_bind, pure_eq_ok, ok_bind]
      refine ih _ ?_
      rw [List.length_zipWith, htotal, hlength, Nat.min_self]
  obtain ⟨sum, hsum, hlength⟩ := hsum _ List.length_replicate octaves
  rw [fractal?, hsum, ok_bind, pure_eq_ok]
  exact ⟨_, rfl, by rw [List.length_map, hlength]⟩

/-- The field of a rectangle that is not empty. -/
theorem exists_noise? (h : Total α) {width height : ℤ} (hwidth : 0 < width) (hheight : 0 < height)
    (hcolumns : ∀ k < width.toNat, ∃ v : α, Scalar.ofInt? (k : ℤ) = .ok v)
    (hrows : ∀ k < height.toNat, ∃ v : α, Scalar.ofInt? (k : ℤ) = .ok v) (kind : NoiseKind)
    (seed : ℤ) (x y fx fy : α) :
    ∃ f, noise? kind seed x y width height fx fy = .ok f ∧ f.Full ∧ f.width = width.toNat ∧
      f.height = height.toNat := by
  obtain ⟨xs, hxs, hxn⟩ := exists_axis? hcolumns x fx
  obtain ⟨ys, hys, hyn⟩ := exists_axis? hrows y fy
  have hempty : ¬(width ≤ 0 ∨ height ≤ 0) := by omega
  have hfull {raw : List α} (hlength : raw.length = ys.length * xs.length) :
      Full ⟨width.toNat, height.toNat, (raw.map Scalar.store).toArray⟩ := by
    rw [Full, List.size_toArray, List.length_map, hlength, hxn, hyn]
  cases kind with
  | simplex =>
    obtain ⟨raw, hraw, hlength⟩ := exists_layer? h (NoiseSource.table (α := α) seed) xs ys
    refine ⟨_, ?_, hfull hlength, rfl, rfl⟩
    simp only [noise?, hempty, if_false, hxs, hys, hraw, ok_bind, pure_eq_ok]
  | fbm =>
    obtain ⟨raw, hraw, hlength⟩ := exists_fractal? h (NoiseSource.table (α := α) seed) xs ys
    refine ⟨_, ?_, hfull hlength, rfl, rfl⟩
    simp only [noise?, hempty, if_false, hxs, hys, hraw, ok_bind, pure_eq_ok]

/-- Noise of a kind at one point. -/
def point? (kind : NoiseKind) (table : NoiseSource.Table α) (x y : α) : Except Fault α :=
  match kind with
  | .simplex => NoiseSource.value? table x y
  | .fbm => do
    let total ← octaves.foldlM (fun total (o : α × α) => do
      pure (total + o.2 * (← NoiseSource.value? table (x * o.1) (y * o.1)))) 0.0
    pure (total / Scalar.sum (octaves.map fun (o : α × α) => o.2))

section Reads
variable {table : NoiseSource.Table α} {xs ys values : List α} {x y : α} {i j : ℕ}

omit [NoiseSource α] in
theorem axis?_reads {start frequency : α} {n : ℕ} (h : axis? start n frequency = .ok xs) :
    xs.length = n ∧ ∀ k < n, ∃ c : α, Scalar.ofInt? (k : ℤ) = .ok c ∧
      xs[k]? = some ((start + c) * frequency) := by
  have hpoints := mapM_eq_ok.mp h
  refine ⟨hpoints.length_eq.symm.trans List.length_range, fun k hk => ?_⟩
  obtain ⟨p, hp, hpoint⟩ := forall₂_getElem? hpoints.flip (List.getElem?_range hk)
  obtain ⟨c, hc, hpoint⟩ := bind_eq_ok.mp hpoint
  obtain rfl := Except.ok.inj hpoint
  exact ⟨c, hc, hp⟩

omit [Scalar α] in
theorem layer?_reads (h : layer? table xs ys = .ok values) (hx : xs[i]? = some x)
    (hy : ys[j]? = some y) : ∃ v, NoiseSource.value? table x y = .ok v ∧
      values[j * xs.length + i]? = some v := by
  obtain ⟨rows, hrows, hvalues⟩ := bind_eq_ok.mp h
  obtain rfl := Except.ok.inj hvalues
  have hrows := mapM_eq_ok.mp hrows
  have hlength : ∀ r ∈ rows, r.length = xs.length := by
    intro r hr
    obtain ⟨y', -, hrow⟩ := forall₂_exists_mem hrows hr
    exact (mapM_eq_ok.mp hrow).length_eq.symm
  obtain ⟨row, hj, hrow⟩ := forall₂_getElem? hrows.flip hy
  obtain ⟨v, hi, hv⟩ := forall₂_getElem? (mapM_eq_ok.mp hrow).flip hx
  obtain ⟨hlt, -⟩ := List.getElem?_eq_some_iff.mp hx
  exact ⟨v, hv, (getElem?_flatten hlength hj hlt).trans hi⟩

theorem fractal?_reads (h : fractal? table xs ys = .ok values) (hx : xs[i]? = some x)
    (hy : ys[j]? = some y) : ∃ v, point? .fbm table x y = .ok v ∧
      values[j * xs.length + i]? = some v := by
  obtain ⟨sum, hsum, hvalues⟩ := bind_eq_ok.mp h
  obtain rfl := Except.ok.inj hvalues
  -- Each layer adds to the total of a cell what it adds to the total of the point.
  have hrun (os : List (α × α)) (total sum : List α) (t : α)
      (ht : total[j * xs.length + i]? = some t)
      (hsum : (os.foldlM (fun total (o : α × α) => do
        let next ← layer? table (xs.map (· * o.1)) (ys.map (· * o.1))
        pure (List.zipWith (fun t v => t + o.2 * v) total next)) total) = .ok sum) :
      ∃ v, os.foldlM (fun total (o : α × α) => do
        pure (total + o.2 * (← NoiseSource.value? table (x * o.1) (y * o.1)))) t = .ok v ∧
          sum[j * xs.length + i]? = some v := by
    induction os generalizing total t with
    | nil =>
      obtain rfl := Except.ok.inj hsum
      exact ⟨t, rfl, ht⟩
    | cons o rest ih =>
      rw [List.foldlM_cons] at hsum
      obtain ⟨total', hstep, hsum⟩ := bind_eq_ok.mp hsum
      obtain ⟨next, hnext, htotal⟩ := bind_eq_ok.mp hstep
      obtain rfl := Except.ok.inj htotal
      have hx' : (xs.map (· * o.1))[i]? = some (x * o.1) := by rw [List.getElem?_map, hx]; rfl
      have hy' : (ys.map (· * o.1))[j]? = some (y * o.1) := by rw [List.getElem?_map, hy]; rfl
      obtain ⟨v, hv, hplace⟩ := layer?_reads hnext hx' hy'
      rw [List.length_map] at hplace
      have ht' : (List.zipWith (fun t v => t + o.2 * v) total next)[j * xs.length + i]? =
          some (t + o.2 * v) := by rw [List.getElem?_zipWith, ht, hplace]
      obtain ⟨u, hu, hread⟩ := ih _ _ ht' hsum
      exact ⟨u, by rw [List.foldlM_cons, hv, ok_bind, pure_eq_ok, ok_bind, hu], hread⟩
  have hblank : (List.replicate (ys.length * xs.length) (0.0 : α))[j * xs.length + i]? =
      some 0.0 := by
    obtain ⟨hi, -⟩ := List.getElem?_eq_some_iff.mp hx
    obtain ⟨hj, -⟩ := List.getElem?_eq_some_iff.mp hy
    rw [List.getElem?_replicate, if_pos (place_lt hi hj)]
  obtain ⟨v, hv, hread⟩ := hrun octaves _ sum 0.0 hblank hsum
  refine ⟨_, by rw [point?, hv, ok_bind, pure_eq_ok], ?_⟩
  rw [List.getElem?_map, hread]
  rfl

end Reads

/-- A cell of a field holds the noise at its point. -/
theorem noise?_reads {kind : NoiseKind} {seed : ℤ} {x y fx fy : α} {width height : ℤ} {f : Field α}
    (h : noise? kind seed x y width height fx fy = .ok f) {i j : ℤ} (hi : 0 ≤ i) (hi' : i < width)
    (hj : 0 ≤ j) (hj' : j < height) :
    ∃ cx cy v : α, Scalar.ofInt? i = .ok cx ∧ Scalar.ofInt? j = .ok cy ∧
      point? kind (NoiseSource.table (α := α) seed) ((x + cx) * fx) ((y + cy) * fy) = .ok v ∧
      f.get? i j = .ok (Scalar.store v) := by
  have hempty : ¬(width ≤ 0 ∨ height ≤ 0) := by omega
  rw [noise?, if_neg hempty] at h
  obtain ⟨xs, hxs, h⟩ := bind_eq_ok.mp h
  obtain ⟨ys, hys, h⟩ := bind_eq_ok.mp h
  obtain ⟨hwidth, hcolumns⟩ := axis?_reads hxs
  obtain ⟨-, hrows⟩ := axis?_reads hys
  obtain ⟨cx, hcx, hx⟩ := hcolumns i.toNat (by omega)
  obtain ⟨cy, hcy, hy⟩ := hrows j.toNat (by omega)
  rw [Int.toNat_of_nonneg hi] at hcx
  rw [Int.toNat_of_nonneg hj] at hcy
  have hread : ∃ (raw : List α) (v : α),
      f = ⟨width.toNat, height.toNat, (raw.map Scalar.store).toArray⟩ ∧
      point? kind (NoiseSource.table (α := α) seed) ((x + cx) * fx) ((y + cy) * fy) = .ok v ∧
      raw[j.toNat * xs.length + i.toNat]? = some v := by
    cases kind with
    | simplex =>
      obtain ⟨raw, hraw, h⟩ := bind_eq_ok.mp h
      obtain ⟨v, hv, hread⟩ := layer?_reads hraw hx hy
      exact ⟨raw, v, (Except.ok.inj h).symm, hv, hread⟩
    | fbm =>
      obtain ⟨raw, hraw, h⟩ := bind_eq_ok.mp h
      obtain ⟨v, hv, hread⟩ := fractal?_reads hraw hx hy
      exact ⟨raw, v, (Except.ok.inj h).symm, hv, hread⟩
  obtain ⟨raw, v, rfl, hv, hread⟩ := hread
  rw [hwidth] at hread
  refine ⟨cx, cy, v, hcx, hcy, hv, ?_⟩
  have hi'' : i < width.toNat := by omega
  have hj'' : j < height.toNat := by omega
  simp [get?, position?_of_lt hj hj'', position?_of_lt hi hi'', hread]

end Field
end TileWorld
