import TunnelMap.Proofs.View.Exact
import TunnelMap.Proofs.View.Fit

/-! A view that goes over to another graph. Old places and new ones have nothing to do with each
other; a node is the same in both graphs if its id is. What the old layout has for a node, it hands
down to the node's new place, and a node that it does not know starts where a layout of the new
graph starts it. What is seen of the world does not change, and the pointer lets go of its node. -/

namespace TunnelMap

variable {R S : Type} [Scalar R] [Engine S] [Precision R S]

namespace View

/-- What a view hands down to the one with another graph that takes its place. -/
structure HandsDown (v : View R S) (g : Graph) (w : View R S) : Prop where
  graph : w.graph = g
  known : ∀ j n i, g.node? j = some n → v.graph.nodeIdx? n.id = some i →
    ∃ p pinned, v.layout.positions[i]? = some p ∧ v.layout.pinned[i]? = some pinned ∧
      w.layout.positions[j]? = some p ∧ w.layout.pinned[j]? = some pinned
  unknown : ∀ j n, g.node? j = some n → v.graph.nodeIdx? n.id = none →
    w.layout.positions[j]? = some (Layout.seed g.nodes.length j) ∧
      w.layout.positions[j]? = (Layout.ofGraph g v.tuning : Layout R S).positions[j]? ∧
      w.layout.pinned[j]? = some false
  camera : w.camera = v.camera
  sizes : w.sizes = v.sizes
  width : w.width = v.width
  height : w.height = v.height
  pan : w.pan = v.pan
  flowTime : w.flowTime = v.flowTime
  drag : w.drag = .idle

theorem Reachable.exists_entry {v : View R S} (h : v.Reachable) {id : NodeId} {i : NodeIdx}
    (hi : v.graph.nodeIdx? id = some i) :
    ∃ p pinned, v.layout.positions[i]? = some p ∧ v.layout.pinned[i]? = some pinned := by
  obtain ⟨n, hn, -⟩ := h.sound.nodeIdx?_eq_some.mp hi
  exact h.fits.staffed.exists_entry (List.getElem?_eq_some_iff.mp hn).1

/-- A node that the graph knows comes to its new place as it was. -/
theorem replace_known (v : View R S) {g : Graph} {i j : NodeIdx} {n : Node} {p : Point R}
    {pinned : Bool} (hn : g.node? j = some n) (hi : v.graph.nodeIdx? n.id = some i)
    (hp : v.layout.positions[i]? = some p) (hb : v.layout.pinned[i]? = some pinned) :
    (v.replace g).value.layout.positions[j]? = some p ∧
      (v.replace g).value.layout.pinned[j]? = some pinned := by
  obtain ⟨hplaces, hpins⟩ := Layout.tune_places
    ((Layout.ofGraph g v.tuning).carryOver g v.graph v.layout).1 v.tuning g
  dsimp only [replace]
  rw [hplaces, hpins]
  exact Layout.carryOver_of_known (Layout.staffed_ofGraph g v.tuning) hn hi hp hb

/-- A node that the graph does not know starts at its place on the ring. -/
theorem replace_unknown (v : View R S) {g : Graph} {j : NodeIdx} {n : Node}
    (hn : g.node? j = some n) (hi : v.graph.nodeIdx? n.id = none) :
    (v.replace g).value.layout.positions[j]? = some (Layout.seed g.nodes.length j) ∧
      (v.replace g).value.layout.pinned[j]? = some false := by
  obtain ⟨hplaces, hpins⟩ := Layout.tune_places
    ((Layout.ofGraph g v.tuning).carryOver g v.graph v.layout).1 v.tuning g
  obtain ⟨hseed, hfree⟩ :=
    Layout.ofGraph_getElem? (S := S) (List.getElem?_eq_some_iff.mp hn).1 v.tuning
  dsimp only [replace]
  rw [hplaces, hpins]
  exact Layout.carryOver_of_unknown hn hi hseed hfree

/-- Whatever graph takes the place of the graph, the layout is handed down by id. -/
theorem Reachable.replace_handsDown {v : View R S} (h : v.Reachable) (g : Graph) :
    v.HandsDown g (v.replace g).value := by
  refine ⟨rfl, fun j n i hn hi => ?_, fun j n hn hi => ?_, rfl, rfl, rfl, rfl, rfl, rfl, rfl⟩
  · obtain ⟨p, pinned, hp, hb⟩ := h.exists_entry hi
    exact ⟨p, pinned, hp, hb, v.replace_known hn hi hp hb⟩
  · obtain ⟨hseed, -⟩ :=
      Layout.ofGraph_getElem? (S := S) (List.getElem?_eq_some_iff.mp hn).1 v.tuning
    obtain ⟨hp, hb⟩ := v.replace_unknown hn hi
    exact ⟨hp, hp.trans hseed.symm, hb⟩

/-- The only node of a graph has its place on the ring taken by that of another. -/
theorem Reachable.replace_lone {S : Type} [Engine S] [Precision ℝ S] {v : View ℝ S} {m n : Node}
    (hv : v.Reachable) (hg : v.graph = .ofParts [m] [])
    (hplace : v.layout.positions[0]? = some (Layout.seed 1 0)) (hk : v.camera.k ≠ 0)
    (hr : 0 < v.sizes.hitRadiusOf n.kind) :
    (v.replace (.ofParts [n] [])).value.nodeAt? (v.camera.toScreen (Layout.seed 1 0)) = some 0 := by
  have hn : (Graph.ofParts [n] []).node? 0 = some n := rfl
  refine nodeAt?_lone_self (v := (v.replace (.ofParts [n] [])).value) rfl ?_ hk hr
  cases hi : v.graph.nodeIdx? n.id with
  | none => exact (v.replace_unknown hn hi).1
  | some i =>
    obtain ⟨n', hn', -⟩ := hv.sound.nodeIdx?_eq_some.mp hi
    obtain ⟨p, pinned, hp, hb⟩ := hv.exists_entry hi
    have hlt : i < 1 := by
      have hlt := (List.getElem?_eq_some_iff.mp hn').1
      rwa [hg] at hlt
    obtain rfl : i = 0 := Nat.lt_one_iff.mp hlt
    rw [← hplace, hp]
    exact (v.replace_known hn hi hp hb).1

/-- It is so while the pointer is pressed. -/
theorem Reachable.press_replace_lone {S : Type} [Engine S] [Precision ℝ S] {v : View ℝ S} {m n : Node}
    (hv : v.Reachable) (hg : v.graph = .ofParts [m] [])
    (hplace : v.layout.positions[0]? = some (Layout.seed 1 0)) (hk : v.camera.k ≠ 0)
    (hr : 0 < v.sizes.hitRadiusOf n.kind) (p : Point ℝ) :
    ((v.press p).replace (.ofParts [n] [])).value.nodeAt?
      (v.camera.toScreen (Layout.seed 1 0)) = some 0 := by
  obtain ⟨drag, pan, hpress⟩ := v.press_eq p
  have hop : (.press p : Operation ℝ S).FromSnapshot := trivial
  have hreach : (v.press p).Reachable := .perform hv hop rfl
  rw [hpress] at hreach ⊢
  exact hreach.replace_lone hg hplace hk hr

/-- A node that was dragged keeps its place and its pin when another comes in before it. -/
theorem handsDown_behind_another : ∃ (v : View ℝ ℝ) (g : Graph),
    v.graph.nodeIdx? ⟨"a"⟩ = some 0 ∧ v.layout.pinned[0]? = some true ∧ v.drag.active ∧
      g.nodes.map (·.id.text) = ["b", "a"] ∧ v.HandsDown g (v.replace g).value := by
  let a : NodeEntry := ⟨⟨"a"⟩, .interface, {}⟩
  let b : NodeEntry := ⟨⟨"b"⟩, .interface, {}⟩
  let pair : Graph := .ofParts [b.node, a.node] []
  obtain ⟨v, q, hv, hg, hd, hm, -⟩ := exists_drag (S := ℝ) a
  obtain ⟨alpha, hpoint⟩ := point_of_drag hd hm
  have hop : (.point q : Operation ℝ ℝ).FromSnapshot := trivial
  have hreach : (v.point q).value.Reachable := .perform hv hop rfl
  have hlt : 0 < v.graph.nodes.length := by
    rw [hg]
    exact Nat.one_pos
  refine ⟨(v.point q).value, pair, ?_, ?_, ?_, rfl, hreach.replace_handsDown pair⟩
  · rw [hpoint, hg]
    rfl
  · rw [hpoint]
    exact (Layout.pin_getElem?_self hv.fits.staffed hlt (v.dragged q)).1
  · rw [hpoint]
    exact hd.active

end View

end TunnelMap
