import TunnelMap.Proofs.View.Fit
import TunnelMap.Proofs.View.Grip
import TunnelMap.Proofs.View.Pan

/-! Moving a node. A press on a node notes where the pointer and the node are, and a pointer that has
travelled puts the node as far off its old place as it has come, by the zoom that there is then. So
the pointer is now to the node as the place of the press is to the node's old place, both seen by the
present camera. The grip is kept as long as the place of the press shows what it showed at the press.
Nothing but the wheel changes that, and not where it is turned at that very place. -/

namespace TunnelMap

namespace Point

/-- The way to a point from another. -/
instance {R : Type} [Scalar R] : Sub (Point R) := ⟨fun p q => ⟨p.x - q.x, p.y - q.y⟩⟩

theorem sub_right_inj {p q a : Point ℝ} : p - a = q - a ↔ p = q := by
  obtain ⟨x, y⟩ := p
  obtain ⟨x', y'⟩ := q
  change Point.mk (x - a.x) (y - a.y) = Point.mk (x' - a.x) (y' - a.y) ↔ _
  simp only [Point.mk.injEq, sub_left_inj]

theorem sub_sub_sub_cancel (p q a : Point ℝ) : p - a - (q - a) = p - q :=
  congrArg₂ Point.mk (sub_sub_sub_cancel_right p.x q.x a.x) (sub_sub_sub_cancel_right p.y q.y a.y)

end Point

namespace Camera

/-- A wheel that is turned over a screen point leaves it its world point. -/
theorem toWorld_zoomAt (c : Camera ℝ) (p : Point ℝ) (turn : ℝ) :
    (c.zoomAt p turn).toWorld p = c.toWorld p := by
  have hk : (c.zoomAt p turn).k ≠ 0 := (c.zoomAt_pos p turn).ne'
  have hcoord (a b : ℝ) :
      (b - (b - (b - a) * ((c.zoomAt p turn).k / c.k))) / (c.zoomAt p turn).k = (b - a) / c.k := by
    field_simp
    ring
  exact congrArg₂ Point.mk (hcoord c.x p.x) (hcoord c.y p.y)

/-- It draws every other screen point's world point away from there, by how much smaller it makes it. -/
theorem toWorld_zoomAt_sub (c : Camera ℝ) (p s : Point ℝ) (turn : ℝ) :
    (c.zoomAt p turn).toWorld s - c.toWorld s =
      (s - p).scale ((c.zoomAt p turn).k⁻¹ - c.k⁻¹) := by
  have hk : (c.zoomAt p turn).k ≠ 0 := (c.zoomAt_pos p turn).ne'
  have hcoord (a b t : ℝ) :
      (t - (b - (b - a) * ((c.zoomAt p turn).k / c.k))) / (c.zoomAt p turn).k - (t - a) / c.k =
        (t - b) * ((c.zoomAt p turn).k⁻¹ - c.k⁻¹) := by
    field_simp
    ring
  exact congrArg₂ Point.mk (hcoord c.x p.x s.x) (hcoord c.y p.y s.y)

end Camera

variable {R S : Type} [Scalar R] [Engine S] [Precision R S]

namespace View

/-! ### What is kept while a node is held -/

omit [Scalar R] [Engine S] [Precision R S] in
theorem fromSnapshot_of_not_dropsNode {op : Operation R S} (h : ¬ op.DropsNode) : op.FromSnapshot := by
  cases op with
  | replace g => exact absurd trivial h
  | _ => trivial

/-- A hold on a node lasts through an operation that does not drop it, and remembers the press. -/
theorem perform?_keeps_drag {v : View R S} {op : Operation R S} {o : Outcome (View R S)}
    (hop : ¬ op.Presses ∧ ¬ op.DropsNode) (h : v.perform? op = some o) : o.value.drag = v.drag := by
  obtain ⟨hdrag, -⟩ := Prod.ext_iff.mp (perform?_held h)
  refine hdrag.trans ?_
  cases op with
  | press p => exact absurd trivial hop.1
  | lift p => exact absurd trivial hop.2
  | exit => exact absurd trivial hop.2
  | replace g => exact absurd trivial hop.2
  | _ => rfl

theorem run?_keeps_drag {o r : Outcome (View R S)} {ops : List (Operation R S)}
    (hops : ∀ op ∈ ops, ¬ op.Presses ∧ ¬ op.DropsNode) (h : o.run? ops = some r) :
    r.value.drag = o.value.drag :=
  Outcome.run?_keeps (P := fun v => v.drag = o.value.drag) (fun _ op _ hv hmem hnext =>
    (perform?_keeps_drag (hops op hmem) hnext).trans hv) rfl h

omit [Engine S] in
/-- A pointer that holds a node leaves the camera. -/
theorem point_camera_of_drag {v : View R S} (hd : v.drag.active) (p : Point R) :
    (v.point p).value.camera = v.camera := by
  obtain ⟨moved, layout, hv, -⟩ := v.dragTo_eq p
  rw [point_held hd, hv]

/-- A screen point shows the same throughout, if the wheel is not turned elsewhere. -/
theorem run?_shows [Precision ℝ S] {o r : Outcome (View ℝ S)} {p : Point ℝ}
    {ops : List (Operation ℝ S)} (hd : o.value.drag.active)
    (hops : ∀ op ∈ ops, ¬ op.Presses ∧ ¬ op.DropsNode)
    (hzooms : ∀ q turn, .zoom q turn ∈ ops → q = p) (h : o.run? ops = some r) :
    r.value.camera.toWorld p = o.value.camera.toWorld p := by
  have hkeeps : r.value.drag.active ∧ r.value.camera.toWorld p = o.value.camera.toWorld p := by
    refine Outcome.run?_keeps (P := fun v => v.drag.active ∧
      v.camera.toWorld p = o.value.camera.toWorld p) (fun v op next hv hmem hnext => ?_) ⟨hd, rfl⟩ h
    have hop : ¬ op.Presses ∧ ¬ op.DropsNode := hops op hmem
    refine ⟨by rw [perform?_keeps_drag hop hnext]; exact hv.1, ?_⟩
    obtain ⟨sizes, rfl⟩ := perform?_after hnext
    cases op with
    | press q => exact absurd trivial hop.1
    | point q => exact (congrArg (·.toWorld p) (point_camera_of_drag hv.1 q)).trans hv.2
    | zoom q turn =>
      obtain rfl : q = p := hzooms q turn hmem
      exact (v.camera.toWorld_zoomAt q turn).trans hv.2
    | _ => exact hv.2
  exact hkeeps.2

/-! ### The grip -/

variable [Precision ℝ S]

omit [Engine S] [Precision ℝ S] in
/-- The pointer is to a dragged node as the place where it took the node is to the place where the node
was, both as they are seen now. -/
theorem toWorld_sub_dragged (v : View ℝ S) (s : Point ℝ) :
    v.camera.toWorld s - v.dragged s = v.camera.toWorld v.drag.start - v.drag.nodeStart := by
  have hcoord (a b n t : ℝ) :
      (t - a) / v.camera.k - (n + (t - b) / v.camera.k) = (b - a) / v.camera.k - n := by
    ring
  exact congrArg₂ Point.mk (hcoord v.camera.x v.drag.start.x v.drag.nodeStart.x s.x)
    (hcoord v.camera.y v.drag.start.y v.drag.nodeStart.y s.y)

/-- While a node is held, a pointer that moves it is to it as the place of the press, seen now, is
to where the node was. -/
theorem Reachable.grip_now {v : View ℝ S} (hv : v.Reachable) {p : Point ℝ} {i : NodeIdx}
    (hp : v.nodeAt? p = some i) {ops : List (Operation ℝ S)}
    (hops : ∀ op ∈ ops, ¬ op.Presses ∧ ¬ op.DropsNode)
    {r : Outcome (View ℝ S)} (h : Outcome.run? { value := v.press p } ops = some r) {s : Point ℝ}
    (hs : (r.value.point s).value.moved) :
    ∃ a b, v.layout.positions[i]? = some a ∧ (r.value.point s).value.layout.positions[i]? = some b ∧
      (r.value.point s).value.camera = r.value.camera ∧
      r.value.camera.toWorld s - b = r.value.camera.toWorld p - a := by
  obtain ⟨a, -, ha, -⟩ := hv.fits.staffed.exists_entry (nodeAt?_lt hp)
  have hdrag : (v.press p).drag = ⟨true, some i, p, a⟩ := by
    rw [press_node hp, ha]
    rfl
  have hheld : r.value.drag = ⟨true, some i, p, a⟩ := (run?_keeps_drag hops h).trans hdrag
  have hholds : r.value.Holds i := ⟨by rw [hheld], by rw [hheld]⟩
  have hop : (.press p : Operation ℝ S).FromSnapshot := trivial
  have hr : r.value.Reachable :=
    Reachable.run (.perform hv hop rfl) (fun op hmem => fromSnapshot_of_not_dropsNode (hops op hmem).2) h
  rw [point_moved_of_drag hholds.active] at hs
  obtain ⟨alpha, hpoint⟩ := point_of_drag hholds hs
  have hplace := (Layout.pin_getElem?_self hr.fits.staffed (hr.grips.node_lt i hholds.node)
    (r.value.dragged s)).2
  have hgrip := r.value.toWorld_sub_dragged s
  rw [hheld] at hgrip
  exact ⟨a, r.value.dragged s, ha, by rw [hpoint]; exact hplace,
    point_camera_of_drag hholds.active s, hgrip⟩

/-- So the grip is that of the press just if the place of the press shows what it showed then; as it
does when the wheel is turned nowhere else. -/
theorem Reachable.grip_slips {v : View ℝ S} (hv : v.Reachable) {p : Point ℝ} {i : NodeIdx}
    (hp : v.nodeAt? p = some i) {ops : List (Operation ℝ S)}
    (hops : ∀ op ∈ ops, ¬ op.Presses ∧ ¬ op.DropsNode)
    {r : Outcome (View ℝ S)} (h : Outcome.run? { value := v.press p } ops = some r) {s : Point ℝ}
    (hs : (r.value.point s).value.moved) :
    ∃ a b, v.layout.positions[i]? = some a ∧ (r.value.point s).value.layout.positions[i]? = some b ∧
      let c := (r.value.point s).value.camera
      c.toWorld s - b = c.toWorld p - a ∧
        (c.toWorld s - b = v.camera.toWorld p - a ↔ c.toWorld p = v.camera.toWorld p) ∧
        ((∀ q turn, .zoom q turn ∈ ops → q = p) → c.toWorld s - b = v.camera.toWorld p - a) := by
  obtain ⟨a, b, ha, hb, hcamera, hgrip⟩ := hv.grip_now hp hops h hs
  refine ⟨a, b, ha, hb, ?_⟩
  rw [hcamera]
  dsimp only
  rw [hgrip]
  refine ⟨rfl, Point.sub_right_inj, fun hzooms => Point.sub_right_inj.mpr ?_⟩
  calc r.value.camera.toWorld p = (v.press p).camera.toWorld p :=
        run?_shows (by rw [press_node hp]) hops hzooms h
    _ = v.camera.toWorld p := by rw [press_node hp]

/-- The only node of a map is taken, the wheel is turned away beside it, and the pointer travels. -/
theorem exists_turned_grip : ∃ (v : View ℝ S) (p q s : Point ℝ) (r : Outcome (View ℝ S)),
    v.Reachable ∧ v.nodeAt? p = some 0 ∧
      (∀ op ∈ [Operation.zoom (S := S) q 1], ¬ op.Presses ∧ ¬ op.DropsNode) ∧
      Outcome.run? { value := v.press p } [.zoom q 1] = some r ∧ (r.value.point s).value.moved ∧
      (r.value.point s).value.camera.toWorld p - v.camera.toWorld p = ⟨1, 0⟩ := by
  let e : NodeEntry := ⟨⟨"a"⟩, .interface, {}⟩
  obtain ⟨o, ho, hg, hplace, hk, hr⟩ := exists_lone (S := S) e.node
  obtain ⟨sizes, -, hv, -⟩ := start?_eq_some ho
  have hlone : Graph.OfSnapshot (.ofParts [e.node] []) := .lone e
  let p : Point ℝ := o.value.camera.toScreen (Layout.seed 1 0)
  let q : Point ℝ := ⟨p.x - 9, p.y⟩
  have hp : o.value.nodeAt? p = some 0 :=
    nodeAt?_lone_self (congrArg Graph.nodes hg) hplace (hk ▸ one_ne_zero) hr
  have hsizing : (o.value.press p).sizing = .standard := by rw [press_node hp, hv]
  obtain ⟨w, hw⟩ := exists_zoomAt hsizing q 1
  obtain ⟨sizes', hzoomed⟩ := zoomAt?_eq_some hw
  have hdrag : w.drag = ⟨true, some 0, p, Layout.seed 1 0⟩ := by
    rw [hzoomed, press_node hp, hplace]
    rfl
  have hactive : w.drag.active := by rw [hdrag]
  have hcamera : w.camera = o.value.camera.zoomAt q 1 := by rw [hzoomed, press_node hp]
  have hops : ∀ op ∈ [Operation.zoom (S := S) q 1], ¬ op.Presses ∧ ¬ op.DropsNode := by
    simp [Operation.Presses, Operation.DropsNode]
  refine ⟨o.value, p, q, ⟨p.x + 10, p.y⟩, _, .start hlone ho, hp, hops, run?_zoom hw, ?_, ?_⟩
  · rw [point_moved_of_drag hactive, hdrag]
    exact w.track_across p
  · rw [point_camera_of_drag hactive, hcamera, Camera.toWorld_zoomAt_sub, Camera.zoomAt_away hk, hk]
    change Point.mk ((p.x - (p.x - 9)) * _) ((p.y - p.y) * _) = Point.mk 1 0
    norm_num

/-- The wheel is turned away nine pixels beside the pointer that holds a node. -/
theorem grip_slips_beside : ∃ (v : View ℝ ℝ) (p q s a b : Point ℝ) (r : Outcome (View ℝ ℝ)),
    v.Reachable ∧ v.nodeAt? p = some 0 ∧
      (∀ op ∈ [Operation.zoom (S := ℝ) q 1], ¬ op.Presses ∧ ¬ op.DropsNode) ∧
      Outcome.run? { value := v.press p } [.zoom q 1] = some r ∧ (r.value.point s).value.moved ∧
      v.layout.positions[0]? = some a ∧ (r.value.point s).value.layout.positions[0]? = some b ∧
      (r.value.point s).value.camera.toWorld s - b - (v.camera.toWorld p - a) = ⟨1, 0⟩ := by
  obtain ⟨v, p, q, s, r, hv, hp, hops, hr, hs, hslip⟩ := exists_turned_grip (S := ℝ)
  obtain ⟨a, b, ha, hb, hgrip, -, -⟩ := hv.grip_slips hp hops hr hs
  refine ⟨v, p, q, s, a, b, r, hv, hp, hops, hr, hs, ha, hb, ?_⟩
  rw [hgrip, Point.sub_sub_sub_cancel, hslip]

/-- A pointer that moves a node can come to be elsewhere on it than where it took it. -/
theorem not_kept_in_grip : ∃ (v : View ℝ ℝ) (p q s a b : Point ℝ) (r : Outcome (View ℝ ℝ)),
    v.Reachable ∧ v.nodeAt? p = some 0 ∧
      Outcome.run? { value := v.press p } [.zoom q 1] = some r ∧ (r.value.point s).value.moved ∧
      v.layout.positions[0]? = some a ∧ (r.value.point s).value.layout.positions[0]? = some b ∧
      (r.value.point s).value.camera.toWorld s - b ≠ v.camera.toWorld p - a := by
  obtain ⟨v, p, q, s, r, hv, hp, hops, hr, hs, hslip⟩ := exists_turned_grip (S := ℝ)
  obtain ⟨a, b, ha, hb, hcamera, hgrip⟩ := hv.grip_now hp hops hr hs
  refine ⟨v, p, q, s, a, b, r, hv, hp, hr, hs, ha, hb, fun hkept => ?_⟩
  rw [hcamera] at hkept hslip
  have hsame : r.value.camera.toWorld p = v.camera.toWorld p :=
    Point.sub_right_inj.mp (hgrip.symm.trans hkept)
  have hnone : v.camera.toWorld p - v.camera.toWorld p = ⟨1, 0⟩ := hsame ▸ hslip
  exact zero_ne_one ((sub_self _).symm.trans (congrArg Point.x hnone))

end View

end TunnelMap
