import TunnelMap.Proofs.View.Gesture
import TunnelMap.Proofs.View.Grip
import TunnelMap.Proofs.View.Succession

/-! The node that a drag moves. A drag has its node by an index, and an index stands for a node only in
the graph that it comes from. But another graph ends the drag, so the index is only ever used in
that graph. Beside a run it is noted what the presses found: the node that is moved is the one that the
last press on a node found, whatever graphs have come in since. -/

namespace TunnelMap

variable {R S : Type} [Scalar R] [Engine S] [Precision R S]

namespace View

omit [Engine S] [Precision R S] in
/-- The id of the node that the last press on a node found, after an operation that comes upon the view. -/
def noteTaken (v : View R S) (taken : Option NodeId) : Operation R S → Option NodeId
  | .press p =>
    match v.nodeAt? p with
    | some i => (v.graph.node? i).map (·.id)
    | none => taken
  | _ => taken

/-- The views that come about, each with the id of the node that the last press on a node found. -/
inductive Logged : View R S → Option NodeId → Prop
  | start {g : Graph} {tuning : Tuning R} {sizing : Sizing R} {width height : R}
      {o : Outcome (View R S)} : g.OfSnapshot → start? g tuning sizing width height = some o →
      Logged o.value none
  | perform {v : View R S} {taken : Option NodeId} {op : Operation R S} {o : Outcome (View R S)} :
      Logged v taken → op.FromSnapshot → v.perform? op = some o → Logged o.value (v.noteTaken taken op)

theorem Logged.reachable {v : View R S} {taken : Option NodeId} (h : v.Logged taken) : v.Reachable := by
  induction h with
  | start hg hs => exact .start hg hs
  | perform _ hop ho ih => exact .perform ih hop ho

theorem Reachable.exists_logged {v : View R S} (h : v.Reachable) : ∃ taken, v.Logged taken := by
  induction h with
  | start hg hs => exact ⟨none, .start hg hs⟩
  | perform _ hop ho ih =>
    obtain ⟨taken, htaken⟩ := ih
    exact ⟨_, htaken.perform hop ho⟩

/-- The node of a drag is one of the graph, and has the id that was noted. -/
def Recalls (v : View R S) (taken : Option NodeId) : Prop :=
  ∀ i, v.drag.node = some i → ∃ n, v.graph.node? i = some n ∧ taken = some n.id

theorem Yields.recalls {v w : View R S} {taken : Option NodeId} {op : Operation R S} (h : v.Yields op w)
    (hv : v.Recalls taken) : w.Recalls (v.noteTaken taken op) := by
  cases h with
  | @grip p a i hnear =>
    intro j hj
    obtain rfl := Option.some.inj hj
    obtain ⟨n, hn⟩ : ∃ n, v.graph.node? i = some n := ⟨_, List.getElem?_eq_getElem (nodeAt?_lt hnear)⟩
    exact ⟨n, hn, by simp only [noteTaken, hnear, hn, Option.map_some]⟩
  | ground pan hfree =>
    simp only [noteTaken, hfree]
    exact hv
  | lift => exact nofun
  | exit => exact nofun
  | replace => exact nofun
  | _ => exact hv

theorem Logged.recalls {v : View R S} {taken : Option NodeId} (h : v.Logged taken) : v.Recalls taken := by
  induction h with
  | start _ hs =>
    obtain ⟨sizes, -, hv, -⟩ := start?_eq_some hs
    rw [hv]
    exact nofun
  | perform _ _ ho ih => exact (perform?_yields ho).recalls ih

omit [Engine S] in
/-- A pointer that holds no node or has not travelled moves none. -/
theorem point_layout {v : View R S} {p : Point R}
    (h : v.drag.active = false ∨ ¬ (v.point p).value.moved) : (v.point p).value.layout = v.layout := by
  cases hd : v.drag.active with
  | false =>
    obtain ⟨camera, moved, hp⟩ := v.panTo_eq p
    rw [point_unheld hd, hp]
  | true =>
    have hm : ¬ (v.track v.drag.start p).moved := by
      rw [← point_moved_of_drag hd]
      exact h.resolve_left (by simp [hd])
    obtain ⟨moved, ht⟩ := v.track_eq v.drag.start p
    rw [point_held hd, dragTo_still (.inr hm), ht]

/-- However a view comes about, a pointer that moves pins a node just if it holds one and has
travelled, and that is the node of the drag, one of the graph with the id that the last press on a node
found. A drag is marked as going on just if it has a node, and the graph has a node at that index. -/
theorem Reachable.drags_taken {v : View R S} (h : v.Reachable) :
    (∃ taken, v.Logged taken) ∧
      (∀ p, v.drag.active = false ∨ ¬ (v.point p).value.moved →
        (v.point p).value.layout = v.layout) ∧
      (∀ taken, v.Logged taken → ∀ p, v.drag.active ∧ (v.point p).value.moved → ∃ i n x alpha,
        (v.point p).value.layout = { v.layout.pin i x with alpha } ∧ v.drag.node = some i ∧
          v.graph.node? i = some n ∧ taken = some n.id) ∧
      (v.drag.active ↔ ∃ i, v.drag.node = some i) ∧
      ∀ i, v.drag.node = some i → i < v.graph.nodes.length := by
  refine ⟨h.exists_logged, fun p => point_layout, fun taken htaken p ⟨hheld, hmoved⟩ => ?_, ?_,
    h.grips.node_lt⟩
  · obtain ⟨i, hi⟩ := h.grips.exists_holds hheld
    obtain ⟨n, hn, hid⟩ := htaken.recalls i hi.node
    rw [point_moved_of_drag hheld] at hmoved
    obtain ⟨alpha, hpoint⟩ := point_of_drag hi hmoved
    exact ⟨i, n, v.dragged p, alpha, by rw [hpoint], hi.node, hn, hid⟩
  · rw [h.grips.active, Option.isSome_iff_exists]

/-- A node is held while another takes its index; that one is pressed, and moves. -/
theorem drags_taken_anew : ∃ (v : View ℝ ℝ) (p : Point ℝ) (i : NodeIdx) (n : Node) (x : Point ℝ)
    (alpha : ℝ), v.Logged (some ⟨"b"⟩) ∧ v.layout.pinned[0]? = some false ∧
      (v.point p).value.layout = { v.layout.pin i x with alpha } ∧ v.drag.node = some i ∧
      v.graph.node? i = some n ∧ n.id = ⟨"b"⟩ := by
  let a : NodeEntry := ⟨⟨"a"⟩, .interface, {}⟩
  let b : NodeEntry := ⟨⟨"b"⟩, .interface, {}⟩
  let g : Graph := .ofParts [b.node] []
  have ha : Graph.OfSnapshot (.ofParts [a.node] []) := .lone a
  have hb : g.OfSnapshot := .lone b
  obtain ⟨o, ho, hg, hplace, hk, hr⟩ := exists_lone (S := ℝ) a.node
  have hk' : o.value.camera.k ≠ 0 := hk ▸ one_ne_zero
  let p : Point ℝ := o.value.camera.toScreen (Layout.seed 1 0)
  let w : View ℝ ℝ := ((o.value.press p).replace g).value
  have hp : w.nodeAt? p = some 0 :=
    (Reachable.start ha ho).press_replace_lone (n := b.node) hg hplace hk' hr p
  have hop : (.press p : Operation ℝ ℝ).FromSnapshot := trivial
  have hreplace : (.replace g : Operation ℝ ℝ).FromSnapshot := hb
  obtain ⟨taken, hswap⟩ : ∃ taken, w.Logged taken :=
    ⟨_, .perform (.perform (.start ha ho) hop rfl) hreplace rfl⟩
  have hnote : w.noteTaken taken (.press p) = some b.id := by
    simp only [noteTaken, hp]
    rfl
  have hlogged : (w.press p).Logged (some b.id) := hnote ▸ .perform hswap hop rfl
  have hfree : w.layout.pinned[0]? = some false := by
    obtain ⟨drag, pan, hpress⟩ := o.value.press_eq p
    have hi : (o.value.press p).graph.nodeIdx? b.id = none := by
      rw [hpress, hg]
      rfl
    exact ((o.value.press p).replace_unknown rfl hi).2
  have hdrag : (w.press p).drag = ⟨true, some 0, p, w.layout.positions[0]?.getD .origin⟩ := by
    rw [press_node hp]
  have hactive : (w.press p).drag.active := by rw [hdrag]
  have hmoved : ((w.press p).point ⟨p.x + 10, p.y⟩).value.moved := by
    rw [point_moved_of_drag hactive, hdrag]
    exact track_across _ p
  obtain ⟨-, -, hpins, -⟩ := hlogged.reachable.drags_taken
  obtain ⟨i, n, x, alpha, hlayout, hi, hn, hid⟩ := hpins _ hlogged _ ⟨hactive, hmoved⟩
  refine ⟨w.press p, ⟨p.x + 10, p.y⟩, i, n, x, alpha, hlogged, ?_, hlayout, hi, hn, ?_⟩
  · rw [press_node hp]
    exact hfree
  · exact (Option.some.inj hid).symm

end View

end TunnelMap
