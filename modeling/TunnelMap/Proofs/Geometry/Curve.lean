import TunnelMap.Proofs.View.Exact

/-! The distance of a point from a curve, in exact arithmetic. A distance is measured from chords between
points of the curve, so these points themselves are at no distance from it, whether a chord has a length
or none. -/

namespace TunnelMap

namespace Point

theorem dist_nonneg (p q : Point ℝ) : 0 ≤ p.dist q := Real.sqrt_nonneg _

theorem hypot_mul (dx dy r : ℝ) : hypot (dx * r) (dy * r) = |r| * hypot dx dy := by
  have hsquare : dx * r * (dx * r) + dy * r * (dy * r) = r ^ 2 * (dx * dx + dy * dy) := by ring
  rw [hypot, hypot, hsquare, Scalar.sqrt_real, Scalar.sqrt_real, Real.sqrt_mul (sq_nonneg r),
    Real.sqrt_sq_eq_abs]

/-- A way is as long as the way across it. -/
theorem hypot_across (dx dy : ℝ) : hypot dy (-dx) = hypot dx dy := by
  simp only [hypot, Scalar.sqrt_real]
  congr 1
  ring

theorem eq_of_square_eq_zero {p q : Point ℝ}
    (h : (p.x - q.x) * (p.x - q.x) + (p.y - q.y) * (p.y - q.y) = 0) : p = q := by
  obtain ⟨hx, hy⟩ := mul_self_add_mul_self_eq_zero.mp h
  exact congrArg₂ Point.mk (sub_eq_zero.mp hx) (sub_eq_zero.mp hy)

theorem eq_of_dist_eq_zero {p q : Point ℝ} (h : p.dist q = 0) : p = q :=
  eq_of_square_eq_zero ((Real.sqrt_eq_zero
    (add_nonneg (mul_self_nonneg (p.x - q.x)) (mul_self_nonneg (p.y - q.y)))).mp h)

end Point

namespace Curve

/-! ### Segments -/

/-- A segment without a length has its start as the only point. -/
theorem segmentDist_real (p a b : Point ℝ) : segmentDist p a b =
    let dx := b.x - a.x
    let dy := b.y - a.y
    let t := max 0 (min 1 (((p.x - a.x) * dx + (p.y - a.y) * dy) / (dx * dx + dy * dy)))
    p.dist ⟨a.x + dx * t, a.y + dy * t⟩ := by
  unfold segmentDist
  simp only [Scalar.zero_real, Scalar.one_real, Scalar.clamp_real zero_le_one]
  split_ifs with hlong
  · rfl
  · have hnonneg := add_nonneg (mul_self_nonneg (b.x - a.x)) (mul_self_nonneg (b.y - a.y))
    have hnone := le_antisymm (not_lt.mp hlong) hnonneg
    simp only [hnone, div_zero, min_eq_right zero_le_one, max_self]

theorem segmentDist_start (a b : Point ℝ) : segmentDist a a b = 0 := by
  simp [segmentDist_real, Point.dist_self]

theorem segmentDist_stop (a b : Point ℝ) : segmentDist b a b = 0 := by
  by_cases hnone : (b.x - a.x) * (b.x - a.x) + (b.y - a.y) * (b.y - a.y) = 0
  · obtain rfl : b = a := Point.eq_of_square_eq_zero hnone
    exact segmentDist_start b b
  · simp [segmentDist_real, div_self hnone, Point.dist_self]

/-! ### Chords -/

theorem min?_eq_least {ds : List ℝ} (h : ds ≠ []) : ds.min? = some (least ds) := by
  cases ds with
  | nil => exact absurd rfl h
  | cons d ds =>
    have hmin : (Scalar.min : ℝ → ℝ → ℝ) = min := funext₂ Scalar.min_real
    rw [List.min?_cons', least, hmin, if_pos (beq_self_eq_true d)]

theorem least_le {ds : List ℝ} {d : ℝ} (h : d ∈ ds) : least ds ≤ d :=
  (List.min?_eq_some_iff.mp (min?_eq_least (List.ne_nil_of_mem h))).2 d h

theorem sample_eq {c : Curve ℝ} (hc : c.curved) (i : ℕ) : c.sample i = c.pointAt (i / chords) := by
  by_cases hi : i = 0
  · simp [sample, hi, pointAt, hc, blend, Scalar.one_real]
  · simp [sample, hi]

theorem distanceTo_sample {c : Curve ℝ} (hc : c.curved) {i : ℕ} (hi : i ≤ chords) :
    c.distanceTo (c.sample i) ≤ 0 := by
  have hchord {j : ℕ} (hj : j < chords) :
      c.distanceTo (c.sample i) ≤ segmentDist (c.sample i) (c.sample j) (c.sample (j + 1)) := by
    rw [distanceTo, if_pos hc]
    exact least_le (List.mem_map.mpr ⟨j, List.mem_range.mpr hj, rfl⟩)
  cases i with
  | zero =>
    calc c.distanceTo (c.sample 0)
      _ ≤ segmentDist (c.sample 0) (c.sample 0) (c.sample 1) := hchord (by decide)
      _ = 0 := segmentDist_start _ _
  | succ i =>
    calc c.distanceTo (c.sample (i + 1))
      _ ≤ segmentDist (c.sample (i + 1)) (c.sample i) (c.sample (i + 1)) := hchord hi
      _ = 0 := segmentDist_stop _ _

/-! ### Curves across the origin -/

/-- However a curve is bent, it passes between its ends halfway. -/
theorem pointAt_half_x (r b : ℝ) :
    ((Curve.between (⟨r, 0⟩ : Point ℝ) ⟨-r, 0⟩ b).pointAt (8 / chords)).x = 0 := by
  have hhalf : (8 / chords : ℝ) = 1 / 2 := by norm_num [chords]
  have hcontrol : (Curve.between (⟨r, 0⟩ : Point ℝ) ⟨-r, 0⟩ b).control.x = 0 := by
    simp only [between]
    split_ifs <;> simp
  rw [hhalf, pointAt]
  split_ifs
  · simp only [blend, hcontrol, Scalar.one_real, Scalar.two_real]
    simp only [between]
    ring
  · simp only [between]
    ring

theorem le_dist_pointAt_half {r x : ℝ} (hx : |x| = r) (y b : ℝ) :
    r ≤ (⟨x, y⟩ : Point ℝ).dist ((Curve.between ⟨r, 0⟩ ⟨-r, 0⟩ b).pointAt (8 / chords)) := by
  have hacross := Point.abs_sub_le_dist ⟨x, y⟩ ((Curve.between ⟨r, 0⟩ ⟨-r, 0⟩ b).pointAt (8 / chords))
  rwa [pointAt_half_x, sub_zero, hx] at hacross

theorem between_curved {r b : ℝ} (hr : 0 < r) (hb : b ≠ 0) :
    (Curve.between (⟨r, 0⟩ : Point ℝ) ⟨-r, 0⟩ b).curved := by
  have hlong : -r - r ≠ 0 := by linarith
  simp [between, hb, hlong, Scalar.zero_real]

end Curve

end TunnelMap
