import Mathlib
import TunnelMap.Proofs.Geometry.Curve

/-! The path that a distance from a curve is measured to, in exact arithmetic: the chords between points
of the curve, or the segment itself. On a segment the nearest point is where the line through it is
nearest, held to the segment, and of the chords the one with the nearest point decides; so the distance is
the least that there is. The path leaves the curve between two points by a share of how much the curve
bends there, which is at most one part in five hundred and twelve of the bend of the whole. -/

namespace TunnelMap

namespace Point

/-- The square of the distance. -/
noncomputable def square (p q : Point ℝ) : ℝ := (p.x - q.x) ^ 2 + (p.y - q.y) ^ 2

theorem dist_sq (p q : Point ℝ) : p.dist q ^ 2 = p.square q := by
  have hnonneg : 0 ≤ (p.x - q.x) * (p.x - q.x) + (p.y - q.y) * (p.y - q.y) :=
    add_nonneg (mul_self_nonneg _) (mul_self_nonneg _)
  rw [dist, hypot, Scalar.sqrt_real, Real.sq_sqrt hnonneg, square]
  ring

/-- The point at the share `t` of the way to another. -/
def toward (a b : Point ℝ) (t : ℝ) : Point ℝ := ⟨a.x + (b.x - a.x) * t, a.y + (b.y - a.y) * t⟩

/-- The points between two, both included. -/
def segment (a b : Point ℝ) : Set (Point ℝ) := a.toward b '' Set.Icc 0 1

end Point

/-- Nothing between zero and one is nearer to a number than the number held between them. -/
theorem abs_held_sub_le (u : ℝ) {t : ℝ} (ht : t ∈ Set.Icc 0 1) : |max 0 (min 1 u) - u| ≤ |t - u| := by
  rcases le_or_gt u 0 with hlow | hlow
  · rw [min_eq_right (by linarith), max_eq_left hlow, abs_of_nonneg (by linarith),
      abs_of_nonneg (by linarith [ht.1])]
    linarith [ht.1]
  · rcases le_or_gt u 1 with hhigh | hhigh
    · rw [min_eq_right hhigh, max_eq_right hlow.le, sub_self, abs_zero]
      exact abs_nonneg _
    · rw [min_eq_left hhigh.le, max_eq_right zero_le_one, abs_of_nonpos (by linarith),
        abs_of_nonpos (by linarith [ht.2])]
      linarith [ht.2]

namespace Curve

/-! ### Segments -/

/-- Along a segment, the squared distance grows with the square of the way from where it is least. -/
theorem square_toward (p a b : Point ℝ)
    (h : (b.x - a.x) * (b.x - a.x) + (b.y - a.y) * (b.y - a.y) ≠ 0) (t : ℝ) :
    let size := (b.x - a.x) * (b.x - a.x) + (b.y - a.y) * (b.y - a.y)
    let foot := ((p.x - a.x) * (b.x - a.x) + (p.y - a.y) * (b.y - a.y)) / size
    p.square (a.toward b t) = size * (t - foot) ^ 2 + (p.square a - size * foot ^ 2) := by
  intro size foot
  have hfoot : size * foot = (p.x - a.x) * (b.x - a.x) + (p.y - a.y) * (b.y - a.y) := mul_div_cancel₀ _ h
  simp only [Point.square, Point.toward]
  linear_combination (2 * t) * hfoot

/-- A segment is as far as its nearest point. -/
theorem isLeast_segmentDist (p a b : Point ℝ) :
    IsLeast (p.square '' a.segment b) (segmentDist p a b ^ 2) := by
  set foot := ((p.x - a.x) * (b.x - a.x) + (p.y - a.y) * (b.y - a.y)) /
    ((b.x - a.x) * (b.x - a.x) + (b.y - a.y) * (b.y - a.y))
  have hheld : max 0 (min 1 foot) ∈ Set.Icc 0 1 := held_mem zero_le_one _
  have hdist : segmentDist p a b ^ 2 = p.square (a.toward b (max 0 (min 1 foot))) := by
    rw [segmentDist_real]
    exact p.dist_sq _
  rw [hdist]
  refine ⟨⟨_, ⟨_, hheld, rfl⟩, rfl⟩, ?_⟩
  rintro _ ⟨_, ⟨t, ht, rfl⟩, rfl⟩
  by_cases hnone : (b.x - a.x) * (b.x - a.x) + (b.y - a.y) * (b.y - a.y) = 0
  · obtain rfl : b = a := Point.eq_of_square_eq_zero hnone
    simp [Point.toward]
  · have hsize : 0 ≤ (b.x - a.x) * (b.x - a.x) + (b.y - a.y) * (b.y - a.y) :=
      add_nonneg (mul_self_nonneg _) (mul_self_nonneg _)
    have hnear : (max 0 (min 1 foot) - foot) ^ 2 ≤ (t - foot) ^ 2 :=
      sq_le_sq.mpr (abs_held_sub_le foot ht)
    rw [square_toward p a b hnone, square_toward p a b hnone]
    exact add_le_add_left (mul_le_mul_of_nonneg_left hnear hsize) _

theorem segmentDist_nonneg (p a b : Point ℝ) : 0 ≤ segmentDist p a b := Real.sqrt_nonneg _

/-! ### The path -/

/-- The points that a distance from a curve is measured to. -/
def path (c : Curve ℝ) : Set (Point ℝ) :=
  if c.curved then
    ⋃ i ∈ Set.Iio chords, (c.pointAt ((i : ℕ) / chords)).segment (c.pointAt ((i + 1 : ℕ) / chords))
  else c.start.segment c.stop

theorem least_mem {ds : List ℝ} (h : ds ≠ []) : least ds ∈ ds :=
  (List.min?_eq_some_iff.mp (min?_eq_least h)).1

/-- A curve is as far as the nearest point of the path. -/
theorem isLeast_distanceTo (c : Curve ℝ) (p : Point ℝ) :
    0 ≤ c.distanceTo p ∧ IsLeast (p.square '' c.path) (c.distanceTo p ^ 2) := by
  unfold distanceTo path
  split_ifs with hc
  · set ds := (List.range chords).map fun i => segmentDist p (c.sample i) (c.sample (i + 1)) with hds
    have hne : ds ≠ [] := by simp [hds, chords]
    obtain ⟨i, hi, hdist⟩ := List.mem_map.mp (least_mem hne)
    have chord (j : ℕ) : IsLeast (p.square ''
        (c.pointAt ((j : ℕ) / chords)).segment (c.pointAt ((j + 1 : ℕ) / chords)))
        (segmentDist p (c.sample j) (c.sample (j + 1)) ^ 2) := by
      rw [sample_eq hc, sample_eq hc]
      exact isLeast_segmentDist p _ _
    refine ⟨hdist ▸ segmentDist_nonneg _ _ _, ?_, ?_⟩
    · rw [← hdist]
      refine Set.image_mono ?_ (chord i).1
      exact Set.subset_biUnion_of_mem (u := fun i : ℕ =>
        (c.pointAt ((i : ℕ) / chords)).segment (c.pointAt ((i + 1 : ℕ) / chords)))
        (Set.mem_Iio.mpr (List.mem_range.mp hi))
    · rintro _ ⟨q, hq, rfl⟩
      obtain ⟨j, hj, hqj⟩ := Set.mem_iUnion₂.mp hq
      have hle : least ds ≤ segmentDist p (c.sample j) (c.sample (j + 1)) :=
        least_le (List.mem_map.mpr ⟨j, List.mem_range.mpr hj, rfl⟩)
      calc least ds ^ 2
        _ ≤ segmentDist p (c.sample j) (c.sample (j + 1)) ^ 2 :=
          pow_le_pow_left₀ (hdist ▸ segmentDist_nonneg _ _ _) hle 2
        _ ≤ p.square q := (chord j).2 ⟨q, hqj, rfl⟩
  · exact ⟨segmentDist_nonneg _ _ _, isLeast_segmentDist p _ _⟩

/-! ### How close the path is -/

/-- Between two points of a curve, the chord is off the curve by a share of its bend. -/
theorem toward_sub_pointAt {c : Curve ℝ} (hc : c.curved) (t h s : ℝ) :
    let q := (c.pointAt t).toward (c.pointAt (t + h)) s
    q.x - (c.pointAt (t + s * h)).x =
        s * (1 - s) * h ^ 2 * (c.start.x - 2 * c.control.x + c.stop.x) ∧
      q.y - (c.pointAt (t + s * h)).y =
        s * (1 - s) * h ^ 2 * (c.start.y - 2 * c.control.y + c.stop.y) := by
  simp only [Point.toward, pointAt, hc, if_true, blend, Scalar.one_real, Scalar.two_real]
  constructor <;> ring

theorem control_between {start stop : Point ℝ} {b : ℝ} (hc : (between start stop b).curved) :
    (between start stop b).control = ⟨(start.x + stop.x) / 2 - (stop.y - start.y) * b,
      (start.y + stop.y) / 2 + (stop.x - start.x) * b⟩ := by
  rw [← Scalar.two_real]
  exact if_pos hc

/-- How far the control point of a curve bends it: off the chord, by its length. -/
theorem bend_between {start stop : Point ℝ} {b : ℝ} (hc : (between start stop b).curved) :
    let c := between start stop b
    c.start.x - 2 * c.control.x + c.stop.x = 2 * b * (stop.y - start.y) ∧
      c.start.y - 2 * c.control.y + c.stop.y = -(2 * b) * (stop.x - start.x) := by
  intro c
  constructor
  · rw [control_between hc]
    simp only [c, between]
    ring
  · rw [control_between hc]
    simp only [c, between]
    ring

/-- How far a chord is off its curve, by the length of the whole. -/
theorem dist_toward_pointAt {start stop : Point ℝ} {b : ℝ} (hc : (between start stop b).curved)
    (t h : ℝ) {s : ℝ} (hs : s ∈ Set.Icc 0 1) :
    let c := between start stop b
    ((c.pointAt t).toward (c.pointAt (t + h)) s).dist (c.pointAt (t + s * h)) =
      s * (1 - s) * h ^ 2 * (2 * |b|) * c.length := by
  intro c
  obtain ⟨hx, hy⟩ := toward_sub_pointAt hc t h s
  obtain ⟨hbx, hby⟩ := bend_between hc
  have hshare : 0 ≤ s * (1 - s) * h ^ 2 :=
    mul_nonneg (mul_nonneg hs.1 (sub_nonneg.mpr hs.2)) (sq_nonneg h)
  have hx' : s * (1 - s) * h ^ 2 * (2 * b * (stop.y - start.y)) =
      (stop.y - start.y) * (s * (1 - s) * h ^ 2 * (2 * b)) := by ring
  have hy' : s * (1 - s) * h ^ 2 * (-(2 * b) * (stop.x - start.x)) =
      -(stop.x - start.x) * (s * (1 - s) * h ^ 2 * (2 * b)) := by ring
  rw [Point.dist, hx, hy, hbx, hby, hx', hy', Point.hypot_mul, Point.hypot_across, abs_mul,
    abs_of_nonneg hshare, abs_mul, abs_two]
  rfl

/-- A share of the whole way is a share of the way along one of the chords. -/
theorem exists_chord {t : ℝ} (ht : t ∈ Set.Icc 0 1) :
    ∃ i < chords, ∃ s ∈ Set.Icc (0 : ℝ) 1, t = (i : ℕ) / chords + s * (1 / chords) := by
  have hchords : (0 : ℝ) < chords := Nat.cast_pos.mpr (by decide)
  rcases ht.2.lt_or_eq with hlt | rfl
  · have hscaled : 0 ≤ t * chords := mul_nonneg ht.1 hchords.le
    refine ⟨⌊t * chords⌋₊, ?_, t * chords - ⌊t * chords⌋₊, ⟨?_, ?_⟩, ?_⟩
    · exact (Nat.floor_lt hscaled).mpr (mul_lt_of_lt_one_left hchords hlt)
    · exact sub_nonneg.mpr (Nat.floor_le hscaled)
    · linarith [Nat.lt_floor_add_one (t * chords)]
    · field_simp
      ring
  · exact ⟨15, by decide, 1, ⟨zero_le_one, le_rfl⟩, by norm_num [chords]⟩

/-- The path stays next to the curve. -/
theorem exists_mem_path (start stop : Point ℝ) (b : ℝ) {t : ℝ} (ht : t ∈ Set.Icc 0 1) :
    let c := between start stop b
    ∃ q ∈ c.path, q.dist (c.pointAt t) ≤ |b| * c.length / 512 := by
  intro c
  have hbend : 0 ≤ |b| * c.length := mul_nonneg (abs_nonneg b) (Real.sqrt_nonneg _)
  by_cases hc : c.curved
  · obtain ⟨i, hi, s, hs, rfl⟩ := exists_chord ht
    have hnext : ((i : ℕ) / chords + 1 / chords : ℝ) = (i + 1 : ℕ) / chords := by
      push_cast
      ring
    have hquarter : s * (1 - s) ≤ 1 / 4 := by nlinarith [sq_nonneg (s - 1 / 2)]
    refine ⟨(c.pointAt (i / chords)).toward (c.pointAt ((i + 1 : ℕ) / chords)) s, ?_, ?_⟩
    · rw [path, if_pos hc]
      exact Set.mem_biUnion (Set.mem_Iio.mpr hi) ⟨s, hs, rfl⟩
    · calc _
        _ = s * (1 - s) * (1 / chords) ^ 2 * (2 * |b|) * c.length := by
          rw [← hnext]
          exact dist_toward_pointAt hc _ _ hs
        _ = s * (1 - s) * (|b| * c.length / 128) := by
          norm_num [chords]
          ring
        _ ≤ 1 / 4 * (|b| * c.length / 128) := mul_le_mul_of_nonneg_right hquarter (by positivity)
        _ = |b| * c.length / 512 := by ring
  · refine ⟨c.pointAt t, ?_, ?_⟩
    · rw [path, if_neg hc, pointAt, if_neg hc]
      exact ⟨t, ht, rfl⟩
    · rw [Point.dist_self]
      positivity

/-- The distance from the curve between two points, however it is bent, is the least that there is from the
path, and the path is next to the curve all along: by no more than a share of how far the curve is bent. -/
theorem between_measured (start stop : Point ℝ) (b : ℝ) :
    let c := between start stop b
    (∀ p, 0 ≤ c.distanceTo p ∧ IsLeast (p.square '' c.path) (c.distanceTo p ^ 2)) ∧
      ∀ t ∈ Set.Icc 0 1, ∃ q ∈ c.path, q.dist (c.pointAt t) ≤ |b| * c.length / 512 :=
  ⟨isLeast_distanceTo _, fun _ ht => exists_mem_path start stop b ht⟩

/-- A curve that is bent by a fifth of its chord passes over the middle of the chord by half of that. In the
middle between two of its points it is off the path by no more than a two hundred and fifty-sixth. -/
theorem between_measured_over_middle : ∃ c : Curve ℝ, c = between ⟨0, 0⟩ ⟨10, 0⟩ (1 / 5) ∧ c.curved ∧
    c.distanceTo ⟨5, 1⟩ = 0 ∧ ∃ q ∈ c.path, q.dist (c.pointAt (1 / 32)) ≤ 1 / 256 := by
  obtain ⟨hleast, hclose⟩ := between_measured ⟨0, 0⟩ ⟨10, 0⟩ (1 / 5)
  set c : Curve ℝ := between ⟨0, 0⟩ ⟨10, 0⟩ (1 / 5) with hc
  have hcurved : c.curved := by simp [hc, between, Scalar.zero_real]
  have hmiddle : c.sample 8 = ⟨5, 1⟩ := by
    have hends : c.start = ⟨0, 0⟩ ∧ c.stop = ⟨10, 0⟩ := ⟨rfl, rfl⟩
    rw [sample_eq hcurved, pointAt, if_pos hcurved, control_between hcurved, hends.1, hends.2]
    simp only [blend, chords, Scalar.one_real, Scalar.two_real]
    norm_num
  have hlength : c.length = 10 := by
    simpa [length, hc, between, Point.dist] using
      Point.dist_across ⟨0, 0⟩ (by norm_num : (0 : ℝ) ≤ 10)
  obtain ⟨q, hq, hnear⟩ := hclose (1 / 32) ⟨by norm_num, by norm_num⟩
  refine ⟨c, rfl, hcurved, le_antisymm ?_ (hleast _).1, q, hq, ?_⟩
  · exact hmiddle ▸ distanceTo_sample hcurved (by decide)
  · calc q.dist (c.pointAt (1 / 32))
      _ ≤ |1 / 5| * c.length / 512 := hnear
      _ = 1 / 256 := by
        rw [hlength]
        norm_num

end Curve

end TunnelMap
