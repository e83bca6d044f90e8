import TunnelMap.Proofs.View.Gesture

/-! Moving the ground. A press on the ground notes where the camera is, and a pointer that moves
puts the camera where it was then and as far off as the pointer has come. Only the zoom of the
camera is the present one. So the world point that was taken stays under the pointer as long as
the zoom is what it was at the press; else the pointer is over a multiple of it, by the old
zoom over the new one. -/

namespace TunnelMap

namespace Point

/-- The point that is `a` times as far off the origin. -/
def scale {R : Type} [Scalar R] (p : Point R) (a : R) : Point R := ⟨p.x * a, p.y * a⟩

theorem origin_real : (origin : Point ℝ) = ⟨0, 0⟩ :=
  congrArg₂ Point.mk Nat.cast_zero Nat.cast_zero

theorem scale_eq_self {p : Point ℝ} {a : ℝ} : p.scale a = p ↔ a = 1 ∨ p = origin := by
  obtain ⟨x, y⟩ := p
  simp only [scale, origin_real, Point.mk.injEq, mul_right_eq_self₀]
  tauto

end Point

namespace Camera

/-- A camera that goes along with the pointer from `p` to `s`, and whose zoom becomes `k`, shows
at `s` what it showed at `p`, by the old zoom over the new one. -/
theorem toWorld_shifted {c : Camera ℝ} (hk : c.k ≠ 0) (p s : Point ℝ) (k : ℝ) :
    (⟨c.x + (s.x - p.x), c.y + (s.y - p.y), k⟩ : Camera ℝ).toWorld s =
      (c.toWorld p).scale (c.k / k) := by
  have hcoord (a b t : ℝ) : (t - (a + (t - b))) / k = (b - a) / c.k * (c.k / k) := by
    rw [div_mul_div_cancel₀ hk]
    ring
  exact congrArg₂ Point.mk (hcoord c.x p.x s.x) (hcoord c.y p.y s.y)

theorem minZoom_real : (minZoom : ℝ) = 1 / 10 :=
  calc (minZoom : ℝ) = (1 : ℕ) / 10 ^ 1 := Scalar.ofDecimal_real 1 1
    _ = 1 / 10 := by norm_num

theorem maxZoom_real : (maxZoom : ℝ) = 10 := Scalar.ofNat_real 10

/-- A turn leads to nine tenths of the zoom, or else to eleven, held between a tenth and ten. -/
theorem zoomAt_zoom (c : Camera ℝ) (p : Point ℝ) (turn : ℝ) : (c.zoomAt p turn).k =
    max (1 / 10) (min 10 (c.k * if 0 < turn then 9 / 10 else 11 / 10)) := by
  have hbounds : (minZoom : ℝ) ≤ maxZoom := by
    rw [minZoom_real, maxZoom_real]
    norm_num
  have hfactor : (if (Scalar.ofNat 0 : ℝ) < turn then Scalar.ofDecimal 9 true 1
      else Scalar.ofDecimal 11 true 1 : ℝ) = if 0 < turn then 9 / 10 else 11 / 10 := by
    simp [Scalar.ofDecimal_real]
  calc (c.zoomAt p turn).k = Scalar.clamp minZoom maxZoom (c.k * if (Scalar.ofNat 0 : ℝ) < turn then
        Scalar.ofDecimal 9 true 1 else Scalar.ofDecimal 11 true 1) := rfl
    _ = _ := by rw [hfactor, Scalar.clamp_real hbounds, minZoom_real, maxZoom_real]

theorem zoomAt_pos (c : Camera ℝ) (p : Point ℝ) (turn : ℝ) : 0 < (c.zoomAt p turn).k := by
  rw [zoomAt_zoom]
  exact lt_max_of_lt_left (by norm_num)

/-- From zoom one, a wheel turned away leads to nine tenths. -/
theorem zoomAt_away {c : Camera ℝ} (hc : c.k = 1) (p : Point ℝ) : (c.zoomAt p 1).k = 9 / 10 := by
  rw [zoomAt_zoom, hc, if_pos one_pos]
  norm_num

end Camera

variable {R S : Type} [Scalar R] [Engine S] [Precision R S]

namespace Operation

omit [Scalar R] [Engine S] [Precision R S] in
/-- The operations that neither start nor end a hold on the ground. -/
def HoldsOn : Operation R S → Prop
  | .press _ | .lift _ | .exit => False
  | _ => True

omit [Scalar R] [Engine S] [Precision R S] in
/-- The turns of the wheel. -/
def Zooms : Operation R S → Prop
  | .zoom _ _ => True
  | _ => False

end Operation

namespace View

/-! ### What is kept while the ground is held -/

omit [Engine S] [Precision R S] in
theorem held_of_holdsOn {v : View R S} {op : Operation R S} (hd : v.drag.active = false)
    (hop : op.HoldsOn) : (v.held op).1.active = false ∧ (v.held op).2 = v.pan := by
  cases op with
  | press p => exact hop.elim
  | lift p => exact hop.elim
  | exit => exact hop.elim
  | replace g => exact ⟨rfl, rfl⟩
  | _ => exact ⟨hd, rfl⟩

/-- A hold on the ground lasts, and remembers the press. -/
theorem run?_holdsOn {o r : Outcome (View R S)} {ops : List (Operation R S)}
    (hd : o.value.drag.active = false) (hops : ∀ op ∈ ops, op.HoldsOn) (h : o.run? ops = some r) :
    r.value.drag.active = false ∧ r.value.pan = o.value.pan := by
  refine Outcome.run?_keeps (P := fun v => v.drag.active = false ∧ v.pan = o.value.pan)
    (fun v op next hv hmem hnext => ?_) ⟨hd, rfl⟩ h
  obtain ⟨hdrag, hpan⟩ := held_of_holdsOn hv.1 (hops op hmem)
  rw [← perform?_held hnext] at hdrag hpan
  exact ⟨hdrag, hpan.trans hv.2⟩

omit [Engine S] in
/-- A pointer that holds the ground takes the camera along from where it was at the press, but leaves
the zoom. -/
theorem point_of_pan {v : View R S} (hd : v.drag.active = false) (ha : v.pan.active) (p : Point R) :
    (v.point p).value.camera =
      ⟨v.pan.cameraStart.x + (p.x - v.pan.start.x), v.pan.cameraStart.y + (p.y - v.pan.start.y),
        v.camera.k⟩ := by
  obtain ⟨moved, hm⟩ := v.track_eq v.pan.start p
  rw [point_unheld hd]
  dsimp only
  rw [panTo, if_pos ha, hm]

/-! ### The zoom -/

omit [Engine S] [Precision R S] in
/-- The zoom after an operation. -/
def zoomAfter (v : View R S) : Operation R S → R
  | .zoom p turn => (v.camera.zoomAt p turn).k
  | _ => v.camera.k

omit [Engine S] in
theorem point_zoom (v : View R S) (p : Point R) : (v.point p).value.camera.k = v.camera.k := by
  cases hd : v.drag.active with
  | true =>
    obtain ⟨moved, layout, hv, -⟩ := v.dragTo_eq p
    rw [point_held hd, hv]
  | false =>
    by_cases ha : v.pan.active
    · rw [point_of_pan hd ha]
    · rw [point_unheld hd]
      dsimp only
      rw [panTo, if_neg ha]

theorem perform?_zoom {v : View R S} {op : Operation R S} {o : Outcome (View R S)}
    (h : v.perform? op = some o) : o.value.camera.k = v.zoomAfter op := by
  obtain ⟨sizes, rfl⟩ := perform?_after h
  cases op with
  | press p =>
    obtain ⟨drag, pan, hp⟩ := v.press_eq p
    simp only [after, hp, zoomAfter]
  | point p => exact v.point_zoom p
  | _ => rfl

/-- Only the wheel changes the zoom. -/
theorem run?_unzoomed {o r : Outcome (View R S)} {ops : List (Operation R S)}
    (hops : ∀ op ∈ ops, ¬ op.Zooms) (h : o.run? ops = some r) :
    r.value.camera.k = o.value.camera.k := by
  refine Outcome.run?_keeps (P := fun v => v.camera.k = o.value.camera.k)
    (fun v op next hv hmem hnext => ?_) rfl h
  have hkeep : v.zoomAfter op = v.camera.k := by
    cases op with
    | zoom p turn => exact (hops _ hmem trivial).elim
    | _ => rfl
  calc next.value.camera.k = v.zoomAfter op := perform?_zoom hnext
    _ = v.camera.k := hkeep
    _ = o.value.camera.k := hv

variable [Precision ℝ S]

theorem perform?_zoom_pos {v : View ℝ S} {op : Operation ℝ S} {o : Outcome (View ℝ S)}
    (hv : 0 < v.camera.k) (h : v.perform? op = some o) : 0 < o.value.camera.k := by
  rw [perform?_zoom h]
  cases op with
  | zoom p turn => exact v.camera.zoomAt_pos p turn
  | _ => exact hv

theorem run?_zoom_pos {o r : Outcome (View ℝ S)} {ops : List (Operation ℝ S)}
    (ho : 0 < o.value.camera.k) (h : o.run? ops = some r) : 0 < r.value.camera.k :=
  Outcome.run?_keeps (P := fun v => 0 < v.camera.k)
    (fun _ _ _ hv _ hnext => perform?_zoom_pos hv hnext) ho h

theorem Reachable.zoom_pos {v : View ℝ S} (h : v.Reachable) : 0 < v.camera.k := by
  induction h with
  | start _ hs =>
    obtain ⟨sizes, -, hv, -⟩ := start?_eq_some hs
    rw [hv]
    exact Nat.cast_pos.mpr Nat.one_pos
  | perform _ _ ho ih => exact perform?_zoom_pos ih ho

/-! ### What is under the pointer -/

omit [Engine S] [Precision ℝ S] in
/-- A pointer that is back where it took the ground leaves the camera where it was. -/
theorem panTo_back {v : View ℝ S} {p : Point ℝ}
    (hp : v.pan = ⟨true, p, ⟨v.camera.x, v.camera.y⟩⟩) : ∃ moved, v.panTo p = { v with moved } := by
  obtain ⟨moved, hm⟩ := v.track_eq v.pan.start p
  refine ⟨moved, ?_⟩
  rw [panTo, if_pos (by rw [hp]), hm, hp]
  simp

/-- After a press on the ground, a pointer that moves is over the point that was taken, by the zoom at
the press over the present one. -/
theorem pan_shows {v : View ℝ S} {p : Point ℝ} {ops : List (Operation ℝ S)}
    {r : Outcome (View ℝ S)} (hk : v.camera.k ≠ 0) (hd : v.drag.active = false)
    (hp : v.nodeAt? p = none) (hops : ∀ op ∈ ops, op.HoldsOn)
    (h : Outcome.run? { value := v.press p } ops = some r) (s : Point ℝ) :
    (r.value.point s).value.camera.toWorld s =
      (v.camera.toWorld p).scale (v.camera.k / r.value.camera.k) := by
  rw [press_ground hp] at h
  -- The camera's place is reckoned from the press, its zoom is the one at the end of the run.
  obtain ⟨hdrag, hpan⟩ := run?_holdsOn hd hops h
  have hactive : r.value.pan.active := by rw [hpan]
  rw [point_of_pan hdrag hactive, hpan]
  exact Camera.toWorld_shifted hk p s r.value.camera.k

/-- While the ground is held, the pointer is over the point that was taken, by the zoom at the press
over the present one. So it is over that very point just if the zoom is what it was at the press, or
the point is the origin; as it is when the wheel is left alone. -/
theorem Reachable.pan_slips {v : View ℝ S} (hv : v.Reachable) {p : Point ℝ}
    (hd : v.drag.active = false) (hp : v.nodeAt? p = none) {ops : List (Operation ℝ S)} (hops : ∀ op ∈ ops, op.HoldsOn)
    {r : Outcome (View ℝ S)} (h : Outcome.run? { value := v.press p } ops = some r) (s : Point ℝ) :
    let c := (r.value.point s).value.camera
    c.toWorld s = (v.camera.toWorld p).scale (v.camera.k / c.k) ∧
      (c.toWorld s = v.camera.toWorld p ↔ c.k = v.camera.k ∨ v.camera.toWorld p = .origin) ∧
      ((∀ op ∈ ops, ¬ op.Zooms) → c.toWorld s = v.camera.toWorld p) := by
  intro c
  have hk : v.camera.k ≠ 0 := hv.zoom_pos.ne'
  have hzoom : c.k = r.value.camera.k := r.value.point_zoom s
  have hpress : (v.press p).camera = v.camera := by rw [press_ground hp]
  have hck : c.k ≠ 0 := by
    rw [hzoom]
    exact (run?_zoom_pos (hpress ▸ hv.zoom_pos) h).ne'
  have hshows : c.toWorld s = (v.camera.toWorld p).scale (v.camera.k / c.k) := by
    rw [hzoom]
    exact pan_shows hk hd hp hops h s
  have hsame : c.toWorld s = v.camera.toWorld p ↔
      c.k = v.camera.k ∨ v.camera.toWorld p = .origin := by
    rw [hshows, Point.scale_eq_self, div_eq_one_iff_eq hck, eq_comm]
  refine ⟨hshows, hsame, fun hnone => hsame.mpr (.inl ?_)⟩
  calc c.k = r.value.camera.k := hzoom
    _ = (v.press p).camera.k := run?_unzoomed hnone h
    _ = v.camera.k := by rw [hpress]

omit [Engine S] [Precision R S] [Precision ℝ S] in
theorem exists_zoomAt?_of_sizes {v : View R S} {p : Point R} {turn : R}
    (h : ∃ sizes, v.sizing.sizesAt? (v.camera.zoomAt p turn).k = some sizes) :
    ∃ w, v.zoomAt? p turn = some w := by
  obtain ⟨sizes, hsizes⟩ := h
  unfold zoomAt? refresh?
  split_ifs
  · exact ⟨_, rfl⟩
  · exact ⟨_, Option.map_eq_some_iff.mpr ⟨sizes, hsizes, rfl⟩⟩

omit [Engine S] [Precision ℝ S] in
/-- With the standard sizes the wheel can always be turned. -/
theorem exists_zoomAt {v : View ℝ S} (hs : v.sizing = .standard) (p : Point ℝ) (turn : ℝ) :
    ∃ w, v.zoomAt? p turn = some w := by
  obtain ⟨sizes, hsizes, -⟩ := Sizing.standard_sizesAt? (v.camera.zoomAt_pos p turn)
  exact exists_zoomAt?_of_sizes ⟨sizes, hs ▸ hsizes⟩

omit [Precision ℝ S] in
theorem perform?_of_zoomAt? {v w : View R S} {p : Point R} {turn : R}
    (h : v.zoomAt? p turn = some w) :
    Outcome.perform? { value := v } (.zoom p turn) = some { value := w } :=
  Outcome.perform?_eq_some.mpr ⟨{ value := w }, Option.map_eq_some_iff.mpr ⟨w, h, rfl⟩, rfl⟩

omit [Precision ℝ S] in
theorem run?_zoom {v w : View R S} {p : Point R} {turn : R} (h : v.zoomAt? p turn = some w) :
    Outcome.run? { value := v } [.zoom p turn] = some { value := w } :=
  Outcome.run?_cons.mpr ⟨_, perform?_of_zoomAt? h, rfl⟩

/-- An empty map has a view at zoom one, which is all ground. -/
theorem exists_ground : ∃ v : View ℝ S, v.Reachable ∧ v.camera = ⟨0, 0, 1⟩ ∧ v.sizing = .standard ∧
    v.drag.active = false ∧ ∀ p, v.nodeAt? p = none := by
  obtain ⟨o, ho, -⟩ := exists_standard (S := S) .empty
  obtain ⟨sizes, -, hv, -⟩ := start?_eq_some ho
  have hempty : Graph.OfSnapshot .empty := ⟨⟨[], []⟩, rfl⟩
  refine ⟨o.value, .start hempty ho, ?_, by rw [hv], by rw [hv]; rfl, fun p => by rw [hv]; rfl⟩
  rw [hv]
  exact congr (congrArg₂ Camera.mk (zero_div _) (zero_div _)) Nat.cast_one

/-- The ground of an empty map is taken beside the origin, and the wheel is turned away there. -/
theorem exists_turned_hold : ∃ (v : View ℝ S) (p : Point ℝ) (turn : Operation ℝ S)
    (r : Outcome (View ℝ S)), v.Reachable ∧ v.drag.active = false ∧ v.nodeAt? p = none ∧
      turn.HoldsOn ∧ Outcome.run? { value := v.press p } [turn] = some r ∧ v.camera.k = 1 ∧
      v.camera.toWorld p = ⟨1, 0⟩ ∧ r.value.camera.k = 9 / 10 := by
  obtain ⟨v, hv, hcamera, hsizing, hdrag, hground⟩ := exists_ground (S := S)
  obtain ⟨w, hw⟩ : ∃ w, (v.press ⟨1, 0⟩).zoomAt? ⟨1, 0⟩ 1 = some w := by
    refine exists_zoomAt ?_ ⟨1, 0⟩ 1
    rw [press_ground (hground _), hsizing]
  obtain ⟨sizes', hzoomed⟩ := zoomAt?_eq_some hw
  refine ⟨v, ⟨1, 0⟩, .zoom ⟨1, 0⟩ 1, _, hv, hdrag, hground _, trivial, run?_zoom hw, by rw [hcamera],
    ?_, ?_⟩
  · rw [hcamera]
    simp [Camera.toWorld]
  · rw [hzoomed]
    exact Camera.zoomAt_away (by rw [press_ground (hground _), hcamera]) ⟨1, 0⟩

/-- The wheel is turned away while the ground is held. -/
theorem pan_slips_by_ninth : ∃ (v : View ℝ ℝ) (p : Point ℝ) (turn : Operation ℝ ℝ)
    (r : Outcome (View ℝ ℝ)), v.Reachable ∧ v.drag.active = false ∧ v.nodeAt? p = none ∧
      (∀ op ∈ [turn], op.HoldsOn) ∧ Outcome.run? { value := v.press p } [turn] = some r ∧
      v.camera.toWorld p = ⟨1, 0⟩ ∧ (r.value.point p).value.camera.toWorld p = ⟨10 / 9, 0⟩ := by
  obtain ⟨v, p, turn, r, hv, hd, hp, hturn, hr, hone, hgrabbed, hk⟩ := exists_turned_hold (S := ℝ)
  have hops : ∀ op ∈ [turn], op.HoldsOn := by simpa using hturn
  obtain ⟨hshows, -⟩ := hv.pan_slips hd hp hops hr p
  refine ⟨v, p, turn, r, hv, hd, hp, hops, hr, hgrabbed, ?_⟩
  rw [hshows, hgrabbed, hone, point_zoom, hk]
  norm_num [Point.scale]

/-- A pointer that holds the ground can come to be over another point than the one it took. -/
theorem not_kept_under_pointer : ∃ (v : View ℝ ℝ) (p : Point ℝ) (turn : Operation ℝ ℝ)
    (r : Outcome (View ℝ ℝ)), v.Reachable ∧ v.drag.active = false ∧ v.nodeAt? p = none ∧
      turn.HoldsOn ∧ Outcome.run? { value := v.press p } [turn] = some r ∧
      (r.value.point p).value.camera.toWorld p ≠ v.camera.toWorld p := by
  obtain ⟨v, p, turn, r, hv, hd, hp, hturn, hr, hone, hgrabbed, hk⟩ := exists_turned_hold (S := ℝ)
  refine ⟨v, p, turn, r, hv, hd, hp, hturn, hr, fun hkept => ?_⟩
  rw [pan_shows hv.zoom_pos.ne' hd hp (by simpa using hturn) hr, hgrabbed, hone, hk] at hkept
  norm_num [Point.scale] at hkept

end View

end TunnelMap
