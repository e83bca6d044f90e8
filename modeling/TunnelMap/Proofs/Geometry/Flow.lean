import Mathlib
import TunnelMap.Geometry.Flow
import TunnelMap.Proofs.View.Exact

/-! The particles of a curve, in exact arithmetic. How far a particle is on its way is a number from zero
up to one, and to add to it is to go around a circle of length one. The particles stand on that circle
evenly, the first where time and speed have brought it; time turns all of them alike. So they come in the
order in which they stand from the start of the curve, turned by as many places as the first has passed. -/

namespace TunnelMap

/-! ### Around the circle -/

theorem Scalar.fract_real {x : ℝ} (hx : 0 ≤ x) : fract x = Int.fract x := by
  have hpos : ¬ x < @OfNat.ofNat ℝ 0 (Scalar.instOfNat 0) := by rwa [zero_real, not_lt]
  rw [fract, trunc, if_neg hpos]
  rfl

theorem Scalar.fract_real_neg {x : ℝ} (hx : x < 0) : fract x = -Int.fract (-x) := by
  have hneg : x < @OfNat.ofNat ℝ 0 (Scalar.instOfNat 0) := by rwa [zero_real]
  rw [fract, trunc, if_pos hneg, Int.fract, neg_sub, sub_neg_eq_add, sub_neg_eq_add, add_comm]
  rfl

/-- What a number has beyond a whole one is counted from the whole number below it, on both sides of
zero. -/
theorem Scalar.mod1_real (x : ℝ) : mod1 x = Int.fract x := by
  unfold mod1
  rw [one_real, zero_real]
  rcases le_or_gt 0 x with hx | hx
  · rw [fract_real hx, if_neg (Int.fract_nonneg x).not_gt]
  · rw [fract_real_neg hx]
    by_cases hwhole : Int.fract x = 0
    · rw [Int.fract_neg_eq_zero.mpr hwhole, neg_zero, if_neg (lt_irrefl 0), hwhole]
    · have hrest : -(1 - Int.fract x) < 0 := by linarith [Int.fract_lt_one x]
      rw [Int.fract_neg hwhole, if_pos hrest]
      ring

/-- To go on from where one is on the circle. -/
theorem fract_fract_add (x y : ℝ) : Int.fract (Int.fract x + y) = Int.fract (x + y) := by
  rw [Int.fract_eq_fract]
  exact ⟨-⌊x⌋, by push_cast; linarith [Int.self_sub_fract x]⟩

/-- To go on by less than a whole turn. -/
theorem fract_add_of_lt {u a : ℝ} (hu : u ∈ Set.Ico 0 1) (ha : 0 ≤ a) (ha' : a < 1) :
    Int.fract (u + a) = if u + a < 1 then u + a else u + a - 1 := by
  split_ifs with hwrap
  · exact Int.fract_eq_self.mpr ⟨add_nonneg hu.1 ha, hwrap⟩
  · rw [← Int.fract_sub_one]
    exact Int.fract_eq_self.mpr ⟨by linarith, by linarith [hu.2]⟩

namespace Curve

variable {count : ℕ} {time speed : ℝ}

/-- How far the particles are on their way, one after another. -/
noncomputable def shares (count : ℕ) (time speed : ℝ) : List ℝ :=
  (List.range count).map (particleShare count (phase time speed))

theorem particles_eq (c : Curve ℝ) (count : ℕ) (time speed : ℝ) :
    c.particles count time speed = (shares count time speed).map c.pointAt := by
  rw [shares, List.map_map]
  rfl

theorem phase_real (time speed : ℝ) : phase time speed = Int.fract (time * speed) :=
  Scalar.mod1_real _

theorem particleShare_real (count : ℕ) (time speed : ℝ) (i : ℕ) :
    particleShare count (phase time speed) i = Int.fract (time * speed + i / count) := by
  have hnonneg : 0 ≤ Int.fract (time * speed) + (i / count : ℝ) :=
    add_nonneg (Int.fract_nonneg _) (by positivity)
  rw [phase_real, particleShare, ← fract_fract_add]
  exact Scalar.fract_real hnonneg

theorem shares_eq (count : ℕ) (time speed : ℝ) : shares count time speed =
    (List.range count).map fun i : ℕ => Int.fract (time * speed + i / count) :=
  List.map_congr_left fun i _ => particleShare_real count time speed i

theorem mem_shares {u : ℝ} (h : u ∈ shares count time speed) : u ∈ Set.Ico 0 1 := by
  rw [shares_eq] at h
  obtain ⟨i, -, rfl⟩ := List.mem_map.mp h
  exact ⟨Int.fract_nonneg _, Int.fract_lt_one _⟩

/-- Time turns all particles alike. -/
theorem shares_add (count : ℕ) (time speed d : ℝ) :
    shares count (time + d) speed = (shares count time speed).map fun u => Int.fract (u + d * speed) := by
  rw [shares_eq, shares_eq, List.map_map]
  refine List.map_congr_left fun i _ => ?_
  rw [Function.comp_apply, fract_fract_add]
  congr 1
  ring

theorem shares_again (hspeed : speed ≠ 0) :
    shares count (time + 1 / speed) speed = shares count time speed := by
  rw [shares_add, one_div_mul_cancel hspeed]
  refine (List.map_congr_left fun u hu => ?_).trans (List.map_id _)
  rw [Int.fract_add_one]
  exact Int.fract_eq_self.mpr (mem_shares hu)

/-! ### Evenly around the circle -/

/-- Where `count` things stand that are even on the circle and the first of which is at `a`. -/
noncomputable def evenly (count : ℕ) (a : ℝ) : List ℝ :=
  (List.range count).map fun (j : ℕ) => a + j / count

theorem evenly_nodup (a : ℝ) : (evenly count a).Nodup := by
  rcases Nat.eq_zero_or_pos count with rfl | hcount
  · exact List.nodup_nil
  · have hpos : (0 : ℝ) < count := Nat.cast_pos.mpr hcount
    refine List.nodup_range.map fun i j hij => ?_
    exact Nat.cast_injective ((div_left_inj' hpos.ne').mp (add_left_cancel hij))

theorem rotate_range (n k : ℕ) : (List.range n).rotate k = (List.range n).map fun i => (i + k) % n := by
  refine List.ext_getElem (by simp) fun i hi hi' => ?_
  simp [List.getElem_rotate]

/-- Some places on from the first, around the circle. -/
theorem fract_evenly (hcount : 0 < count) {a : ℝ} (ha : a ∈ Set.Ico 0 (1 / (count : ℝ))) (n : ℕ) :
    Int.fract (a + n / count) = a + (n % count : ℕ) / count := by
  have hpos : (0 : ℝ) < count := Nat.cast_pos.mpr hcount
  have hlast : ((n % count : ℕ) : ℝ) + 1 ≤ count := by exact_mod_cast Nat.mod_lt n hcount
  have hbelow : a + (n % count : ℕ) / count < 1 := by
    calc a + (n % count : ℕ) / count
      _ < 1 / count + (n % count : ℕ) / count := add_lt_add_left ha.2 _
      _ = ((n % count : ℕ) + 1) / count := by ring
      _ ≤ 1 := (div_le_one hpos).mpr hlast
  have hturns : (n : ℝ) = count * (n / count : ℕ) + (n % count : ℕ) := by
    exact_mod_cast (Nat.div_add_mod n count).symm
  refine Int.fract_eq_iff.mpr ⟨add_nonneg ha.1 (by positivity), hbelow, (n / count : ℕ), ?_⟩
  rw [Int.cast_natCast]
  field_simp
  linarith

/-- The particles are even on the circle, and come in the order of a list that is turned. -/
theorem shares_evenly (hcount : 0 < count) (time speed : ℝ) :
    ∃ a ∈ Set.Ico 0 (1 / (count : ℝ)), ∃ k < count,
      shares count time speed = (evenly count a).rotate k := by
  have hpos : (0 : ℝ) < count := Nat.cast_pos.mpr hcount
  have hphase : 0 ≤ Int.fract (time * speed) * count := mul_nonneg (Int.fract_nonneg _) hpos.le
  set k : ℕ := ⌊Int.fract (time * speed) * count⌋₊ with hk
  have hfloor : (k : ℝ) ≤ Int.fract (time * speed) * count := Nat.floor_le hphase
  have hceil : Int.fract (time * speed) * count < k + 1 := Nat.lt_floor_add_one _
  have hlt : k < count := by
    refine (Nat.floor_lt hphase).mpr ?_
    exact mul_lt_of_lt_one_left hpos (Int.fract_lt_one _)
  have hmem : Int.fract (time * speed) - k / count ∈ Set.Ico 0 (1 / (count : ℝ)) := by
    constructor
    · rw [sub_nonneg, div_le_iff₀ hpos]
      exact hfloor
    · rw [sub_lt_iff_lt_add, ← add_div, lt_div_iff₀ hpos]
      linarith
  refine ⟨Int.fract (time * speed) - k / count, hmem, k, hlt, ?_⟩
  rw [shares_eq, evenly, ← List.map_rotate, rotate_range, List.map_map]
  refine List.map_congr_left fun i _ => ?_
  rw [Function.comp_apply, ← fract_evenly hcount hmem, ← fract_fract_add]
  congr 1
  push_cast
  ring

/-! ### Particles -/

/-- How particles are spread over a curve and go along it. -/
structure Flows (c : Curve ℝ) (count : ℕ) (time speed : ℝ) : Prop where
  particles_eq : c.particles count time speed = (shares count time speed).map c.pointAt
  length_eq : (c.particles count time speed).length = count
  mem_Ico : ∀ u ∈ shares count time speed, u ∈ Set.Ico 0 1
  nodup : (shares count time speed).Nodup
  perm : 0 < count → ∃ a ∈ Set.Ico 0 (1 / (count : ℝ)), (shares count time speed).Perm (evenly count a)
  shift : ∀ d, shares count (time + d) speed =
    (shares count time speed).map fun u => Int.fract (u + d * speed)
  ahead : ∀ d, 0 ≤ d * speed → d * speed < 1 → shares count (time + d) speed =
    (shares count time speed).map fun u => if u + d * speed < 1 then u + d * speed else u + d * speed - 1
  again : speed ≠ 0 → c.particles count (time + 1 / speed) speed = c.particles count time speed
  start : c.pointAt 0 = c.start
  stop : c.pointAt 1 = c.stop

theorem pointAt_zero (c : Curve ℝ) : c.pointAt 0 = c.start := by
  unfold pointAt
  split_ifs <;> simp [blend, Scalar.one_real]

theorem pointAt_one (c : Curve ℝ) : c.pointAt 1 = c.stop := by
  unfold pointAt
  split_ifs <;> simp [blend, Scalar.one_real]

/-- On every curve there are as many particles as there should be, evenly spread over the way from the start
to the stop. All go ahead by their speed, enter at the start when they come to the stop, and after the time
that one takes for the whole way they are where they were. -/
theorem particles_flow (c : Curve ℝ) (count : ℕ) (time speed : ℝ) : c.Flows count time speed where
  particles_eq := c.particles_eq count time speed
  length_eq := by rw [particles, List.length_map, List.length_range]
  mem_Ico _ := mem_shares
  nodup := by
    rcases Nat.eq_zero_or_pos count with rfl | hcount
    · exact List.nodup_nil
    · obtain ⟨a, -, k, -, hshares⟩ := shares_evenly hcount time speed
      rw [hshares, List.nodup_rotate]
      exact evenly_nodup a
  perm hcount := by
    obtain ⟨a, ha, k, -, hshares⟩ := shares_evenly hcount time speed
    exact ⟨a, ha, hshares ▸ List.rotate_perm _ k⟩
  shift := shares_add count time speed
  ahead d hd hd' := by
    rw [shares_add]
    exact List.map_congr_left fun u hu => fract_add_of_lt (mem_shares hu) hd hd'
  again hspeed := by
    rw [c.particles_eq, c.particles_eq, shares_again hspeed]
  start := c.pointAt_zero
  stop := c.pointAt_one

/-- Four particles that go backwards, of which the third is the first from the start of the curve. -/
theorem particles_flow_backwards : ∃ c : Curve ℝ, c.Flows 4 1 (-3 / 10) ∧
    shares 4 1 (-3 / 10) = [7 / 10, 19 / 20, 1 / 5, 9 / 20] ∧
    c.particles 4 1 (-3 / 10) = [⟨7, 0⟩, ⟨19 / 2, 0⟩, ⟨2, 0⟩, ⟨9 / 2, 0⟩] := by
  let c : Curve ℝ := ⟨⟨0, 0⟩, ⟨5, 0⟩, ⟨10, 0⟩, false⟩
  have hflows : c.Flows 4 1 (-3 / 10) := c.particles_flow 4 1 (-3 / 10)
  have share (i : ℕ) (z : ℤ) (u : ℝ) (hu : u ∈ Set.Ico 0 1)
      (h : 1 * (-3 / 10) + (i : ℝ) / (4 : ℕ) - u = z) :
      Int.fract (1 * (-3 / 10) + (i : ℝ) / (4 : ℕ)) = u := Int.fract_eq_iff.mpr ⟨hu.1, hu.2, z, h⟩
  have hshares : shares 4 1 (-3 / 10) = [7 / 10, 19 / 20, 1 / 5, 9 / 20] := by
    rw [shares_eq]
    simp only [List.range_succ, List.range_zero, List.nil_append, List.cons_append, List.map_cons,
      List.map_nil]
    rw [share 0 (-1) (7 / 10), share 1 (-1) (19 / 20), share 2 0 (1 / 5), share 3 0 (9 / 20)] <;>
      norm_num
  refine ⟨c, hflows, hshares, ?_⟩
  rw [hflows.particles_eq, hshares]
  norm_num [pointAt, c]

end Curve

end TunnelMap
