import TunnelMap.Proofs.View.Pan

/-! The sizes of a view are always those of the zoom of its camera. They are looked up when the wheel has
changed the zoom, and a zoom that they are not in order at ends the run there. So all other operations go
through, in every view that can come about. -/

namespace TunnelMap.View

variable {R S : Type} [Scalar R] [Engine S] [Precision R S]

omit [Engine S] [Precision R S] in
/-- The sizes are those of their zoom, which is the zoom of the camera. The two need not be equal
numbers: what is not a number differs from itself. -/
structure Sized (v : View R S) : Prop where
  sizesAt : v.sizing.sizesAt? v.sizes.k = some v.sizes
  zoom : v.sizes.k == v.camera.k ∨ v.sizes.k = v.camera.k

omit [Engine S] [Precision R S] in
theorem refresh?_sized {v w : View R S} (hs : v.sizing.sizesAt? v.sizes.k = some v.sizes)
    (h : v.refresh? = some w) : w.Sized := by
  unfold refresh? at h
  split_ifs at h with hk
  · obtain rfl := Option.some.inj h
    exact ⟨hs, .inl hk⟩
  · obtain ⟨sizes, hsizes, rfl⟩ := Option.map_eq_some_iff.mp h
    have hzoom : sizes.k = v.camera.k := Sizing.k_of_sizesAt? hsizes
    exact ⟨hzoom.symm ▸ hsizes, .inr hzoom⟩

namespace Sized

variable {v : View R S} (hv : v.Sized)

include hv

omit [Engine S] [Precision R S] in
/-- There is nothing to look up. -/
theorem refresh?_eq : v.refresh? = some v := by
  unfold refresh?
  split_ifs with hk
  · rfl
  · have hzoom : v.sizes.k = v.camera.k := hv.zoom.resolve_left hk
    rw [← hzoom, hv.sizesAt]
    rfl

theorem tick?_eq (dt : S) : v.tick? dt =
    some { v with layout := v.layout.tick dt, flowTime := v.flowTime + widen dt } := by
  rw [View.tick?, hv.refresh?_eq]
  rfl

/-- Only the wheel can lead to sizes that are out of order. -/
theorem exists_perform? {op : Operation R S} (hop : ¬ op.Zooms) : ∃ o, v.perform? op = some o := by
  cases op with
  | zoom p turn => exact (hop trivial).elim
  | tick dt => exact ⟨_, Option.map_eq_some_iff.mpr ⟨_, hv.tick?_eq dt, rfl⟩⟩
  | _ => exact ⟨_, rfl⟩

theorem perform? {op : Operation R S} {o : Outcome (View R S)} (h : v.perform? op = some o) :
    o.value.Sized := by
  have hzoom := perform?_zoom h
  have hyields := perform?_yields h
  cases op with
  | zoom p turn =>
    obtain ⟨w, hw, rfl⟩ := Option.map_eq_some_iff.mp h
    exact refresh?_sized (v := { v with camera := v.camera.zoomAt p turn }) hv.sizesAt hw
  | tick dt =>
    obtain ⟨w, hw, rfl⟩ := Option.map_eq_some_iff.mp h
    obtain rfl := Option.some.inj ((hv.tick?_eq dt).symm.trans hw)
    exact ⟨hv.sizesAt, hv.zoom⟩
  | _ =>
    -- The zoom is what it was, and so are the sizes, in whatever the operation yields.
    obtain ⟨w, events, notices⟩ := o
    dsimp only at hzoom hyields
    cases hyields <;> exact ⟨hv.sizesAt, hzoom ▸ hv.zoom⟩

end Sized

theorem Reachable.sized {v : View R S} (h : v.Reachable) : v.Sized := by
  induction h with
  | start _ ho =>
    obtain ⟨sizes, hs, hv, -⟩ := start?_eq_some ho
    have hzoom : sizes.k = 1 := Sizing.k_of_sizesAt? hs
    rw [hv]
    exact ⟨hzoom.symm ▸ hs, .inr hzoom⟩
  | perform _ _ ho ih => exact ih.perform? ho

end TunnelMap.View
