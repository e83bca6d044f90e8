import TunnelMap.Proofs.Scalar.Product
import TunnelMap.Proofs.View.Zoom

/-! The way that the wheel goes, in binary floating point. A zoom in range has a full mantissa, so that it
falls by a tenth of it and rises by a tenth of it, and is held where it was only at a bound. What decides
between the two is whether the wheel is turned away. A wheel that is turned sideways is not, and so it
draws the view nearer, just as one that is turned towards the user. -/

namespace TunnelMap

open Binary

namespace Camera

theorem minZoom_full : Full minZoom :=
  ⟨7205759403792794, -56, by norm_num, rfl, by norm_num⟩

theorem InRange.full {k : Float} (h : InRange k) : Full k := minZoom_full.of_le h.proper h.1

variable {c : Camera Float} (hk : InRange c.k) {turn : Float} (p : Point Float)

include hk

/-- A wheel that is turned away leads to a smaller zoom, unless it is the least. -/
theorem zoomAt_falls (h : 0 < turn) : (c.zoomAt p turn).k ≤ c.k ∧
    ((c.zoomAt p turn).k < c.k ↔ c.k ≠ minZoom) := by
  have hzoom : (c.zoomAt p turn).k = Scalar.clamp minZoom maxZoom (c.k * 0.9) :=
    congrArg (fun factor => Scalar.clamp minZoom maxZoom (c.k * factor)) (if_pos h)
  rw [hzoom]
  exact clamp_falls hk.proper hk.1 hk.2 hk.full.mul_nine_tenths_lt

/-- A wheel that is not turned away leads to a larger zoom, unless it is the greatest. -/
theorem zoomAt_rises (h : ¬ 0 < turn) : c.k ≤ (c.zoomAt p turn).k ∧
    (c.k < (c.zoomAt p turn).k ↔ c.k ≠ maxZoom) := by
  have hzoom : (c.zoomAt p turn).k = Scalar.clamp minZoom maxZoom (c.k * 1.1) :=
    congrArg (fun factor => Scalar.clamp minZoom maxZoom (c.k * factor)) (if_neg h)
  rw [hzoom]
  exact clamp_rises hk.proper hk.1 hk.2 hk.full.lt_mul_eleven_tenths

end Camera

namespace View

variable {S : Type} [Engine S] [Precision Float S]

/-- In every view that can come about, a wheel that is turned away does not lead to a larger zoom, and
leads to a smaller one unless the zoom is the least. In all other cases it does not lead to a smaller
zoom, and leads to a larger one unless the zoom is the greatest, so in particular when the turn is zero.
The sizes become those of the zoom. -/
theorem Reachable.zooms_by_turn {v : View Float S} (h : v.Reachable) (p : Point Float) (turn : Float) :
    ∃ w, v.zoomAt? p turn = some w ∧ w.sizing.sizesAt? w.camera.k = some w.sizes ∧
      (0 < turn → w.camera.k ≤ v.camera.k ∧ (w.camera.k < v.camera.k ↔ v.camera.k ≠ Camera.minZoom)) ∧
      (¬ 0 < turn →
        v.camera.k ≤ w.camera.k ∧ (v.camera.k < w.camera.k ↔ v.camera.k ≠ Camera.maxZoom)) := by
  obtain ⟨sizes, hsizes, hw⟩ := h.exists_zoomed p turn
  exact ⟨_, hw, hsizes, Camera.zoomAt_falls h.inRange p, Camera.zoomAt_rises h.inRange p⟩

/-- An empty map has a view at zoom one, on a canvas of the usual size. -/
theorem exists_empty : ∃ v : View Float S, v.Reachable ∧ v.camera.k = 1 := by
  obtain ⟨o, ho⟩ : ∃ o : Outcome (View Float S),
      start? .empty .standard .standard 800 600 = some o := ⟨_, rfl⟩
  obtain ⟨sizes, -, hv, -⟩ := start?_eq_some ho
  exact ⟨o.value, .start ⟨⟨[], []⟩, rfl⟩ ho, by rw [hv]⟩

theorem one_ne_bound : (1 : Float) ≠ Camera.minZoom ∧ (1 : Float) ≠ Camera.maxZoom := by
  constructor <;> decide +kernel

/-- From zoom one the wheel is turned away, towards the user, and sideways. -/
theorem zooms_by_turn_from_one : ∃ v away near aside : View Float Float32, v.Reachable ∧
    v.zoomAt? .origin 1 = some away ∧ away.camera.k < v.camera.k ∧
    v.zoomAt? .origin (-1) = some near ∧ v.camera.k < near.camera.k ∧
    v.zoomAt? .origin 0 = some aside ∧ v.camera.k < aside.camera.k := by
  obtain ⟨v, hv, hk⟩ := exists_empty (S := Float32)
  obtain ⟨hmin, hmax⟩ := one_ne_bound
  obtain ⟨away, haway, -, hfalls, -⟩ := hv.zooms_by_turn .origin 1
  obtain ⟨near, hnear, -, -, hrises⟩ := hv.zooms_by_turn .origin (-1)
  obtain ⟨aside, haside, -, -, hrises'⟩ := hv.zooms_by_turn .origin 0
  exact ⟨v, away, near, aside, hv, haway, (hfalls (by decide +kernel)).2.mpr (hk ▸ hmin), hnear,
    (hrises (by decide +kernel)).2.mpr (hk ▸ hmax), haside,
    (hrises' (by decide +kernel)).2.mpr (hk ▸ hmax)⟩

/-- A wheel that is turned sideways changes the zoom, and with it the sizes. -/
theorem sideways_zooms : ∃ v w : View Float Float32, v.Reachable ∧ v.zoomAt? .origin 0 = some w ∧
    v.camera.k = 1 ∧ w.camera.k = 1.1 ∧ w.camera ≠ v.camera ∧ w.sizes ≠ v.sizes := by
  obtain ⟨v, hv, hk⟩ := exists_empty (S := Float32)
  obtain ⟨sizes, hsizes, hw⟩ := hv.exists_zoomed .origin 0
  have hzoomed : (v.camera.zoomAt .origin 0).k = 1.1 := by
    have hfactor : ¬ (0 : Float) < 0 := by decide +kernel
    have hclamp : Scalar.clamp Camera.minZoom Camera.maxZoom ((1 : Float) * 1.1) = 1.1 := by
      decide +kernel
    rw [← hclamp, ← hk]
    exact congrArg (fun factor => Scalar.clamp Camera.minZoom Camera.maxZoom (v.camera.k * factor))
      (if_neg hfactor)
  have hne : (1.1 : Float) ≠ 1 := by decide +kernel
  have hbefore : v.sizes.k = 1 := (Sizing.k_of_sizesAt? hv.current.sizes).trans hk
  have hafter : sizes.k = 1.1 := (Sizing.k_of_sizesAt? hsizes).trans hzoomed
  refine ⟨v, _, hv, hw, hk, hzoomed, fun h => hne ?_, fun h => hne ?_⟩
  · exact hzoomed.symm.trans ((congrArg Camera.k h).trans hk)
  · exact hafter.symm.trans ((congrArg Sizes.k h).trans hbefore)

end View

end TunnelMap
