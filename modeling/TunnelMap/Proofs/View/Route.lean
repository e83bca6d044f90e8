import TunnelMap.Proofs.View.Pan
import TunnelMap.Proofs.View.Succession

/-! Where a move of the pointer goes. A pointer that holds a node has its moves for the drag alone. A
pointer that holds the ground takes it along, and then goes over to what is under it all the same, as
if it held nothing. So a move of the ground goes unheard only as long as the target stays under the
pointer, and another graph, or a layout that runs, can bring something else there. -/

namespace TunnelMap

namespace Hover

theorem passing_eq_nil {old new : Target} : passing old new = [] ↔ new = old := by
  unfold passing
  split_ifs with h
  · exact iff_of_true rfl h
  · refine iff_of_false (fun hnil => h ?_) h
    obtain ⟨hleaving, hreaching⟩ := List.append_eq_nil_iff.mp hnil
    cases new with
    | nothing =>
      cases old with
      | nothing => rfl
      | node id => exact nomatch hleaving
      | edge id => exact nomatch hleaving
    | node id => exact nomatch hreaching
    | edge id => exact nomatch hreaching

theorem move_told (h : Hover) (g : Graph) (picked : Target) :
    (h.move g picked).2 = passing h.target (g.resolve picked) := by
  unfold move passing
  dsimp only
  split_ifs
  · rfl
  · rfl

/-- A move keeps the hover just if it keeps the target. -/
theorem move_eq_self {h : Hover} {g : Graph} {picked : Target} :
    (h.move g picked).1 = h ↔ g.resolve picked = h.target := by
  unfold move
  dsimp only
  split_ifs with hsame
  · exact iff_of_true rfl hsame
  · exact iff_of_false (fun hturn => hsame (congrArg Hover.target hturn)) hsame

end Hover

namespace View

variable {R S : Type} [Scalar R] [Engine S] [Precision R S]

omit [Engine S] in
theorem point_unheld_told {v : View R S} (hd : v.drag.active = false) (p : Point R) :
    (v.point p).events = (v.hover.move v.graph ((v.panTo p).pick p)).2 := by
  obtain ⟨camera, moved, hp⟩ := v.panTo_eq p
  simp [point, hd, hp]

omit [Engine S] in
/-- A pointer without a node moves the ground if it holds it, and then hovers as one that holds
nothing. -/
theorem point_unheld_released {v : View R S} (hd : v.drag.active = false) (p : Point R) :
    (v.point p).events = ((v.panTo p).release.point p).events ∧
      (v.point p).value.hover = ((v.panTo p).release.point p).value.hover := by
  have hfree : (v.panTo p).release.panTo p = (v.panTo p).release := if_neg Bool.false_ne_true
  have hpick : (v.panTo p).release.pick p = (v.panTo p).pick p := rfl
  obtain ⟨camera, moved, hp⟩ := v.panTo_eq p
  rw [point_unheld_told hd, point_unheld hd, point_unheld_told rfl, point_unheld rfl, hfree, hpick, hp]
  exact ⟨rfl, rfl⟩

omit [Engine S] in
/-- While the pointer holds a node, a move tells nothing and leaves the hover. Else it takes the
ground along if it holds it, and tells of what it comes over as a pointer does that holds nothing. So
it is silent, and the hover stays, just if it holds a node or is over the target still. -/
theorem point_tells (v : View R S) (p : Point R) :
    (v.drag.active → (v.point p).events = [] ∧ (v.point p).value.hover = v.hover) ∧
    (v.drag.active = false → (v.point p).events = ((v.panTo p).release.point p).events ∧
      (v.point p).value.hover = ((v.panTo p).release.point p).value.hover) ∧
    ((v.point p).events = [] ↔
      v.drag.active ∨ v.graph.resolve ((v.panTo p).pick p) = v.hover.target) ∧
    ((v.point p).value.hover = v.hover ↔
      v.drag.active ∨ v.graph.resolve ((v.panTo p).pick p) = v.hover.target) := by
  cases hd : v.drag.active with
  | true =>
    obtain ⟨moved, layout, hv, htold, -⟩ := v.dragTo_eq p
    have hpoint : (v.point p).events = [] ∧ (v.point p).value.hover = v.hover := by
      rw [point_held hd, hv, htold]
      exact ⟨rfl, rfl⟩
    exact ⟨fun _ => hpoint, nofun, iff_of_true hpoint.1 (.inl rfl), iff_of_true hpoint.2 (.inl rfl)⟩
  | false =>
    refine ⟨nofun, fun _ => point_unheld_released hd p, ?_, ?_⟩
    · rw [point_unheld_told hd, Hover.move_told, Hover.passing_eq_nil]
      simp
    · rw [point_unheld hd, Hover.move_eq_self]
      simp

/-- The ground of an empty map is held, a node comes in where the pointer is, and a move to the same
place tells of it. -/
theorem pan_tells : ∃ (v : View ℝ ℝ) (p : Point ℝ), v.Reachable ∧ v.isPressed ∧ v.drag.active = false ∧
    (v.point p).events = [.nodeHovered (some ⟨"a"⟩)] ∧ (v.point p).value.hover ≠ v.hover := by
  let a : NodeEntry := ⟨⟨"a"⟩, .interface, {}⟩
  let lone : Graph := .ofParts [a.node] []
  have hempty : Graph.OfSnapshot .empty := ⟨⟨[], []⟩, rfl⟩
  obtain ⟨o, ho, hk, hr⟩ := exists_standard (S := ℝ) .empty
  obtain ⟨sizes, -, hv, -⟩ := start?_eq_some ho
  let p : Point ℝ := o.value.camera.toScreen (Layout.seed 1 0)
  have hpress : o.value.press p =
      { o.value with moved := false, pan := ⟨true, p, ⟨o.value.camera.x, o.value.camera.y⟩⟩ } :=
    press_ground (by rw [hv]; rfl)
  have hunknown : (o.value.press p).graph.nodeIdx? a.id = none := by rw [hpress, hv]; rfl
  obtain ⟨hseed, -⟩ := (o.value.press p).replace_unknown (g := lone) (j := 0) (n := a.node) rfl hunknown
  have hop : (.press p : Operation ℝ ℝ).FromSnapshot := trivial
  have hreplace : (.replace lone : Operation ℝ ℝ).FromSnapshot := .lone a
  have hreach : ((o.value.press p).replace lone).value.Reachable :=
    .perform (.perform (.start hempty ho) hop rfl) hreplace rfl
  set w := ((o.value.press p).replace lone).value with hw
  have hcamera : w.camera = o.value.camera := by rw [hw, hpress]; rfl
  have hpan : w.pan = ⟨true, p, ⟨w.camera.x, w.camera.y⟩⟩ := by rw [hw, hpress]; rfl
  have hhover : w.hover = .idle := by rw [hw, hpress, hv]; rfl
  have hat : w.nodeAt? p = some 0 := by
    rw [show p = w.camera.toScreen (Layout.seed 1 0) by rw [hcamera]]
    refine nodeAt?_lone_self (n := a.node) rfl hseed (hcamera ▸ hk ▸ one_ne_zero) ?_
    rw [show w.sizes = o.value.sizes by rw [hw, hpress]; rfl]
    exact hr _
  obtain ⟨moved, hback⟩ := panTo_back hpan
  have hmove : w.hover.move w.graph ((w.panTo p).pick p) =
      (⟨.node a.id, ⟨[0], []⟩⟩, [.nodeHovered (some a.id)]) := by
    rw [show (w.panTo p).pick p = .node a.id by rw [hback]; exact pick_of_nodeAt? hat rfl, hhover]
    exact Hover.idle_move_lone a.node
  have hdrag : w.drag.active = false := rfl
  refine ⟨w, p, hreach, by simp [isPressed, hpan], hdrag, ?_, ?_⟩
  · rw [point_unheld_told hdrag, hmove]
  · rw [point_unheld hdrag, hmove, hhover]
    intro hsame
    have htarget : Target.node a.id = .nothing := congrArg Hover.target hsame
    cases htarget

end View

end TunnelMap
