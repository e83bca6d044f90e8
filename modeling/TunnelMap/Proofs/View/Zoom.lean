import TunnelMap.Proofs.Scalar.Quotient
import TunnelMap.Proofs.View.Sized

/-! The zoom of a view in binary floating point, and the sizes that it keeps for it. The wheel holds the
zoom between two bounds, and sizes that are in order at zoom one are in order at all zooms between them,
as division keeps the order of bounds. The sizes are looked up only when their zoom differs from that of
the camera as a number. In a view that came about by its operations the two are then the same, for their
zoom is no zero. So whatever zoom the camera is given from outside, the next look-up, in a tick or a turn
of the wheel, finds that the sizes are for another, unless they are current. -/

namespace TunnelMap

open Binary

/-! ### The range of the wheel -/

namespace Camera

theorem minZoom_proper : Proper minZoom := ⟨_, _, by norm_num, rfl⟩

theorem maxZoom_proper : Proper maxZoom := ⟨_, _, by norm_num, rfl⟩

/-- A zoom that the wheel can lead to. -/
def InRange (k : Float) : Prop := minZoom ≤ k ∧ k ≤ maxZoom

theorem InRange.proper {k : Float} (h : InRange k) : Proper k :=
  .of_between minZoom_proper maxZoom_proper h.1 h.2

theorem inRange_one : InRange 1 := by
  constructor <;> decide +kernel

/-- The wheel leads into its range from every zoom that is a number. -/
theorem zoomAt_inRange {c : Camera Float} (hk : IsNumber c.k) (p : Point Float) (turn : Float) :
    InRange (c.zoomAt p turn).k := by
  have hbounds : (minZoom : Float) ≤ maxZoom := by decide +kernel
  have hfactor : Proper (if 0 < turn then 0.9 else 1.1) := by
    split_ifs
    · exact ⟨_, _, by norm_num, rfl⟩
    · exact ⟨_, _, by norm_num, rfl⟩
  exact clamp_between hbounds (hk.mul hfactor)

theorem zoomAt_of_not_isNumber {c : Camera Float} (hk : ¬ IsNumber c.k) (p : Point Float)
    (turn : Float) : (c.zoomAt p turn).k = c.k := by
  have hscaled : ¬ IsNumber (c.k * if 0 < turn then 0.9 else 1.1) := not_isNumber_mul hk _
  calc (c.zoomAt p turn).k = c.k * if 0 < turn then 0.9 else 1.1 := clamp_of_not_isNumber hscaled ..
    _ = c.k := (eq_nan hscaled).trans (eq_nan hk).symm

end Camera

/-! ### Sizes in order -/

theorem Scalar.exists_clamp? {R : Type} [Scalar R] {lo hi x : R} :
    (∃ y, clamp? lo hi x = some y) ↔ lo ≤ hi := by
  simp [clamp?]

/-- Bounds that are in order at zoom one are in order at all zooms in range. -/
theorem Extent.exists_apply? {e : Extent Float} {base k : Float} (hk : Camera.InRange k)
    (h : ∃ r, e.apply? base 1 = some r) : ∃ r, e.apply? base k = some r := by
  cases e with
  | world => exact ⟨_, rfl⟩
  | screen => exact ⟨_, rfl⟩
  | clamped min max =>
    have hone : min / 1 ≤ max / 1 := Scalar.exists_clamp?.mp h
    exact Scalar.exists_clamp?.mpr (div_le_div hk.proper (le_of_div_one hone))

namespace Sizing

/-- Sizes are in order if the bounds of names, of radii and of hit radii are. -/
theorem exists_sizesAt? {R : Type} [Scalar R] {s : Sizing R} {k : R} :
    (∃ sizes, s.sizesAt? k = some sizes) ↔ s.label.minPx ≤ s.label.maxPx ∧
      (∃ r, s.node.radiusExtent.apply? s.node.radius k = some r) ∧
      ∃ r, s.node.hitExtent.apply? s.node.hitRadius k = some r := by
  constructor
  · rintro ⟨sizes, h⟩
    obtain ⟨label, hlabel, h⟩ := Option.bind_eq_some_iff.mp h
    obtain ⟨radius, hradius, h⟩ := Option.bind_eq_some_iff.mp h
    obtain ⟨hit, hhit, -⟩ := Option.bind_eq_some_iff.mp h
    exact ⟨Scalar.exists_clamp?.mp ⟨label, hlabel⟩, ⟨radius, hradius⟩, ⟨hit, hhit⟩⟩
  · rintro ⟨hlabel, ⟨radius, hradius⟩, ⟨hit, hhit⟩⟩
    obtain ⟨label, hlabel⟩ : ∃ label, s.label.screenPx? k = some label := Scalar.exists_clamp?.mpr hlabel
    exact ⟨_, Option.bind_eq_some_iff.mpr ⟨label, hlabel, Option.bind_eq_some_iff.mpr
      ⟨radius, hradius, Option.bind_eq_some_iff.mpr ⟨hit, hhit, rfl⟩⟩⟩⟩

/-- The sizes are in order at every zoom in range. -/
def InOrder (s : Sizing Float) : Prop := ∀ k, Camera.InRange k → ∃ sizes, s.sizesAt? k = some sizes

theorem inOrder_of_one {s : Sizing Float} (h : ∃ sizes, s.sizesAt? 1 = some sizes) : s.InOrder := by
  intro k hk
  obtain ⟨hlabel, hradius, hhit⟩ := exists_sizesAt?.mp h
  exact exists_sizesAt?.mpr ⟨hlabel, Extent.exists_apply? hk hradius, Extent.exists_apply? hk hhit⟩

end Sizing

variable {R S : Type} [Scalar R] [Engine S] [Precision R S]

namespace Operation

omit [Scalar R] [Engine S] [Precision R S] in
/-- The operations that look up sizes. -/
def LooksUp : Operation R S → Prop
  | .zoom _ _ | .tick _ => True
  | _ => False

end Operation

namespace View

/-- Views that come from a view while its camera is set from outside and no sizes are looked up. -/
inductive Strays (v : View R S) : View R S → Prop
  | refl : v.Strays v
  | set {w : View R S} (c : Camera R) : v.Strays w → v.Strays { w with camera := c }
  | perform {w : View R S} {op : Operation R S} {o : Outcome (View R S)} : v.Strays w →
      ¬ op.LooksUp → w.perform? op = some o → v.Strays o.value

theorem perform?_sizing {v : View R S} {op : Operation R S} {o : Outcome (View R S)}
    (h : v.perform? op = some o) : o.value.sizing = v.sizing := by
  have hyields := perform?_yields h
  generalize o.value = w at hyields
  cases hyields <;> rfl

/-- A view starts with sizes that are in order at zoom one, and the sizing stays. -/
theorem Reachable.sizesAt_one {v : View R S} (h : v.Reachable) :
    ∃ sizes, v.sizing.sizesAt? 1 = some sizes := by
  induction h with
  | start _ ho =>
    obtain ⟨sizes, hs, hv, -⟩ := start?_eq_some ho
    rw [hv]
    exact ⟨sizes, hs⟩
  | perform _ _ ho ih => rwa [perform?_sizing ho]

theorem perform?_sizes {v : View R S} {op : Operation R S} {o : Outcome (View R S)}
    (hop : ¬ op.LooksUp) (h : v.perform? op = some o) : o.value.sizes = v.sizes := by
  have hyields := perform?_yields h
  generalize o.value = w at hyields
  cases hyields <;> first | rfl | exact (hop trivial).elim

theorem Strays.kept {v w : View R S} (h : v.Strays w) : w.sizing = v.sizing ∧ w.sizes = v.sizes := by
  induction h with
  | refl => exact ⟨rfl, rfl⟩
  | set _ _ ih => exact ih
  | perform _ hop ho ih => exact ⟨(perform?_sizing ho).trans ih.1, (perform?_sizes hop ho).trans ih.2⟩

end View

/-! ### Views that come about -/

namespace View

variable {S : Type} [Engine S] [Precision Float S]

omit [Engine S] [Precision Float S] in
/-- The zoom is in range, and the sizes are in order at all zooms in range and are those of the zoom. -/
structure Current (v : View Float S) : Prop where
  inRange : Camera.InRange v.camera.k
  inOrder : v.sizing.InOrder
  sizes : v.sizing.sizesAt? v.camera.k = some v.sizes

omit [Engine S] [Precision Float S] in
theorem Sized.sizesAt_zoom {v : View Float S} (hv : v.Sized) (hk : Proper v.camera.k) :
    v.sizing.sizesAt? v.camera.k = some v.sizes := by
  have hzoom : v.sizes.k = v.camera.k := hv.zoom.elim (fun h => eq_of_beq h (.inr hk)) id
  rw [← hzoom]
  exact hv.sizesAt

theorem Reachable.inRange {v : View Float S} (h : v.Reachable) : Camera.InRange v.camera.k := by
  induction h with
  | start _ ho =>
    obtain ⟨sizes, -, hv, -⟩ := start?_eq_some ho
    rw [hv]
    exact Camera.inRange_one
  | @perform v op o _ _ ho ih =>
    rw [perform?_zoom ho]
    cases op with
    | zoom p turn => exact Camera.zoomAt_inRange ih.proper.isNumber p turn
    | _ => exact ih

theorem Reachable.current {v : View Float S} (h : v.Reachable) : v.Current where
  inRange := h.inRange
  inOrder := Sizing.inOrder_of_one h.sizesAt_one
  sizes := h.sized.sizesAt_zoom h.inRange.proper

omit [Engine S] [Precision Float S] in
/-- A look-up comes to what there is at the zoom of the camera, even where it is left out. -/
theorem refresh?_eq_lookUp {v : View Float S} (hs : v.sizing.sizesAt? v.sizes.k = some v.sizes)
    (hk : Proper v.sizes.k) :
    v.refresh? = (v.sizing.sizesAt? v.camera.k).map fun sizes => { v with sizes } := by
  unfold refresh?
  split_ifs with hzoom
  · rw [← eq_of_beq hzoom (.inl hk), hs]
    rfl
  · rfl

omit [Engine S] [Precision Float S] in
/-- The wheel leads into its range, or leaves a zoom that is not a number. -/
theorem exists_zoomAt? {v : View Float S} (hs : v.sizing.sizesAt? v.sizes.k = some v.sizes)
    (hk : Proper v.sizes.k) (horder : v.sizing.InOrder)
    (hzoom : IsNumber v.camera.k ∨ ∃ sizes, v.sizing.sizesAt? v.camera.k = some sizes)
    (p : Point Float) (turn : Float) :
    ∃ sizes, v.sizing.sizesAt? (v.camera.zoomAt p turn).k = some sizes ∧
      v.zoomAt? p turn = some { v with camera := v.camera.zoomAt p turn, sizes } := by
  obtain ⟨sizes, hsizes⟩ :
      ∃ sizes, v.sizing.sizesAt? (v.camera.zoomAt p turn).k = some sizes := by
    by_cases hnumber : IsNumber v.camera.k
    · exact horder _ (Camera.zoomAt_inRange hnumber p turn)
    · rw [Camera.zoomAt_of_not_isNumber hnumber]
      exact hzoom.resolve_left hnumber
  have hlookUp := refresh?_eq_lookUp (v := { v with camera := v.camera.zoomAt p turn }) hs hk
  dsimp only at hlookUp
  refine ⟨sizes, hsizes, ?_⟩
  rw [zoomAt?, hlookUp, hsizes]
  rfl

/-- The wheel never leads to sizes that are out of order. -/
theorem Reachable.exists_zoomed {v : View Float S} (h : v.Reachable) (p : Point Float)
    (turn : Float) : ∃ sizes, v.sizing.sizesAt? (v.camera.zoomAt p turn).k = some sizes ∧
      v.zoomAt? p turn = some { v with camera := v.camera.zoomAt p turn, sizes } := by
  obtain ⟨hrange, horder, hsizes⟩ := h.current
  have hk : v.sizes.k = v.camera.k := Sizing.k_of_sizesAt? hsizes
  exact exists_zoomAt? (hk ▸ hsizes) (hk ▸ hrange.proper) horder (.inl hrange.proper.isNumber)
    p turn

/-- In every view that comes about, the sizes are those of the zoom, which is in range. When the camera
has been set from outside, to a zoom that there are sizes for, a tick and a turn of the wheel come to the
sizes of the zoom that there is then. -/
theorem Reachable.sizes_current {v : View Float S} (h : v.Reachable) :
    v.sizing.sizesAt? v.camera.k = some v.sizes ∧
      Camera.minZoom ≤ v.camera.k ∧ v.camera.k ≤ Camera.maxZoom ∧
      ∀ w : View Float S, v.Strays w → (∃ sizes, w.sizing.sizesAt? w.camera.k = some sizes) →
        (∀ dt, ∃ sizes, w.sizing.sizesAt? w.camera.k = some sizes ∧ w.tick? dt =
          some { w with sizes, layout := w.layout.tick dt, flowTime := w.flowTime + widen dt }) ∧
        ∀ p turn, ∃ sizes, w.sizing.sizesAt? (w.camera.zoomAt p turn).k = some sizes ∧
          w.zoomAt? p turn = some { w with camera := w.camera.zoomAt p turn, sizes } := by
  obtain ⟨hrange, horder, hsizes⟩ := h.current
  refine ⟨hsizes, hrange.1, hrange.2, fun w hw ⟨sizes, hw'⟩ => ?_⟩
  obtain ⟨hsizing, hkept⟩ := hw.kept
  -- The sizes are still those of the zoom that the view had, which is no zero.
  have hk : w.sizes.k = v.camera.k := hkept ▸ Sizing.k_of_sizesAt? hsizes
  have hproper : Proper w.sizes.k := hk ▸ hrange.proper
  have hsized : w.sizing.sizesAt? w.sizes.k = some w.sizes := by rw [hk, hsizing, hkept, hsizes]
  refine ⟨fun dt => ⟨sizes, hw', ?_⟩, fun p turn => ?_⟩
  · rw [tick?, refresh?_eq_lookUp hsized hproper, hw']
    rfl
  · exact exists_zoomAt? hsized hproper (hsizing ▸ horder) (.inr ⟨sizes, hw'⟩) p turn

/-- The camera of a view at zoom one comes to twenty-five, which the wheel cannot lead to. -/
theorem sizes_current_out_of_range : ∃ v w u : View Float Float32, v.Reachable ∧ v.Strays w ∧
    w.camera.k = 25 ∧ w.sizes.k = 1 ∧ w.tick? 0.01 = some u ∧ u.sizes.k = 25 := by
  have hempty : Graph.OfSnapshot .empty := ⟨⟨[], []⟩, rfl⟩
  obtain ⟨o, ho⟩ : ∃ o : Outcome (View Float Float32),
      start? .empty .standard .standard 800 600 = some o := ⟨_, rfl⟩
  obtain ⟨sizes, hs, hv, -⟩ := start?_eq_some ho
  have hreach : o.value.Reachable := .start hempty ho
  have hstrays : o.value.Strays { o.value with camera := ⟨0, 0, 25⟩ } := .set ⟨0, 0, 25⟩ .refl
  have hstandard : ∃ sizes, (Sizing.standard : Sizing Float).sizesAt? 25 = some sizes :=
    Sizing.exists_sizesAt?.mpr ⟨by decide +kernel, Scalar.exists_clamp?.mpr (by decide +kernel),
      Scalar.exists_clamp?.mpr (by decide +kernel)⟩
  have hdefined : ∃ sizes, o.value.sizing.sizesAt? 25 = some sizes := by rwa [hv]
  obtain ⟨-, -, -, hafter⟩ := hreach.sizes_current
  obtain ⟨sizes', hs', htick⟩ := (hafter _ hstrays hdefined).1 0.01
  have hone : o.value.sizes.k = 1 := by
    rw [hv]
    exact Sizing.k_of_sizesAt? hs
  exact ⟨o.value, _, _, hreach, hstrays, rfl, hone, htick, Sizing.k_of_sizesAt? hs'⟩

end View

end TunnelMap
