import TunnelMap.Proofs.View.Grip
import TunnelMap.Proofs.View.Succession

/-! A node that was dragged stays. Its pin is kept in the layout and in its body, and its place is
read back from the body at every step, so it may be rounded, but only once: what was rounded stays
as it is. Neither the links nor other nodes move it, and another graph takes its place and its pin
over. Only a drag can put it elsewhere. -/

namespace TunnelMap

variable {R S : Type}

/-- The node with an id is pinned in a place. -/
def Layout.Pins (l : Layout R S) (g : Graph) (id : NodeId) (p : Point R) : Prop :=
  ∃ i, g.nodeIdx? id = some i ∧ l.pinned[i]? = some true ∧ l.positions[i]? = some p

variable [Scalar R] [Engine S] [Precision R S]

namespace View

/-- An operation that does not drag the node with an id and does not take it out of the graph. -/
def Spares (v : View R S) (id : NodeId) : Operation R S → Prop
  | .point p => ∀ i, v.Holds i → (v.track v.drag.start p).moved → v.graph.nodeIdx? id ≠ some i
  | .replace g => g.OfSnapshot ∧ (g.nodeIdx? id).isSome
  | _ => True

/-- What a view can come to by operations that spare a node. -/
inductive Sparing (v : View R S) (id : NodeId) : View R S → Prop
  | refl : v.Sparing id v
  | perform {w : View R S} {op : Operation R S} {o : Outcome (View R S)} : v.Sparing id w →
      w.Spares id op → w.perform? op = some o → v.Sparing id o.value

theorem Yields.pins {v w : View R S} {op : Operation R S} {id : NodeId} {p : Point R}
    (h : v.Yields op w) (hs : v.Spares id op) (hv : v.layout.Fits v.graph)
    (hp : v.layout.Pins v.graph id p) :
    w.layout.Pins w.graph id p ∨ w.layout.Pins w.graph id (p.rounded S) := by
  obtain ⟨i, hi, hpin, hplace⟩ := hp
  cases h with
  | @drag q j _ hd hm =>
    have hne : j ≠ i := fun heq => hs j hd hm (heq ▸ hi)
    obtain ⟨hpin', hplace'⟩ := v.layout.pin_getElem?_ne hne (v.dragged q)
    exact .inl ⟨i, hi, hpin'.trans hpin, hplace'.trans hplace⟩
  | tick dt =>
    obtain ⟨hpin', hplace' | hplace'⟩ := Layout.tick_pinned hv.staffed hv.inStep dt hpin hplace
    · exact .inl ⟨i, hi, hpin', hplace'⟩
    · exact .inr ⟨i, hi, hpin', hplace'⟩
  | retune t =>
    obtain ⟨hplaces, hpins⟩ := v.layout.tune_places t v.graph
    exact .inl ⟨i, hi, hpins ▸ hpin, hplaces ▸ hplace⟩
  | replace g =>
    obtain ⟨hg, hsome⟩ := hs
    obtain ⟨j, hj⟩ := Option.isSome_iff_exists.mp hsome
    obtain ⟨n, hn, rfl⟩ := hg.sound.nodeIdx?_eq_some.mp hj
    obtain ⟨hplace', hpin'⟩ := v.replace_known hn hi hplace hpin
    exact .inl ⟨j, hj, hpin', hplace'⟩
  | _ => exact .inl ⟨i, hi, hpin, hplace⟩

theorem Sparing.reachable {id : NodeId} {v w : View R S} (h : v.Sparing id w) (hv : v.Reachable) :
    w.Reachable := by
  induction h with
  | refl => exact hv
  | @perform w op o _ hs ho ih =>
    have hop : op.FromSnapshot := by
      cases op with
      | replace g => exact hs.1
      | _ => trivial
    exact .perform ih hop ho

/-- Once the place is rounded, it stays as it is. -/
theorem Sparing.pins {id : NodeId} {v w : View R S} {p : Point R} (h : v.Sparing id w)
    (hround : (p.rounded S).rounded S = p.rounded S) (hv : v.Reachable)
    (hp : v.layout.Pins v.graph id p) :
    w.layout.Pins w.graph id p ∨ w.layout.Pins w.graph id (p.rounded S) := by
  induction h with
  | refl => exact .inl hp
  | perform hrun hs ho ih =>
    have hfits := (hrun.reachable hv).fits
    have hstep := perform?_yields ho
    rcases ih with ih | ih
    · exact hstep.pins hs hfits ih
    · have hnext := hstep.pins hs hfits ih
      rw [hround, or_self] at hnext
      exact .inr hnext

/-- A drag pins its node where it takes it, and then the node stays there, but for a rounding. -/
theorem Reachable.drag_lasts {v : View R S}
    (hround : ∀ x : R, widen (narrow (widen (narrow x : S) : R) : S) = (widen (narrow x : S) : R))
    (hv : v.Reachable) (hd : v.drag.active) {q : Point R} (hm : (v.track v.drag.start q).moved) :
    ∃ i n, v.drag.node = some i ∧ v.graph.node? i = some n ∧
      (v.point q).value.layout.Pins (v.point q).value.graph n.id (v.dragged q) ∧
      ∀ w, (v.point q).value.Sparing n.id w →
        w.layout.Pins w.graph n.id (v.dragged q) ∨
          w.layout.Pins w.graph n.id ((v.dragged q).rounded S) := by
  obtain ⟨i, hi⟩ := hv.grips.exists_holds hd
  have hlt : i < v.graph.nodes.length := hv.grips.node_lt i hi.node
  obtain ⟨n, hn⟩ : ∃ n, v.graph.node? i = some n := ⟨_, List.getElem?_eq_getElem hlt⟩
  obtain ⟨alpha, hpoint⟩ := point_of_drag hi hm
  have hop : (.point q : Operation R S).FromSnapshot := trivial
  have hreach : (v.point q).value.Reachable := .perform hv hop rfl
  have hpins : (v.point q).value.layout.Pins (v.point q).value.graph n.id (v.dragged q) := by
    rw [hpoint]
    exact ⟨i, hv.sound.nodeIdx?_eq_some.mpr ⟨n, hn, rfl⟩,
      Layout.pin_getElem?_self hv.fits.staffed hlt _⟩
  have hrounded : ((v.dragged q).rounded S).rounded S = (v.dragged q).rounded S :=
    congrArg₂ Point.mk (hround _) (hround _)
  exact ⟨i, n, hi.node, hn, hpins, fun w hw => hw.pins hrounded hreach hpins⟩

/-- Dragged, rounded and then carried to another place in another graph, a node is where the drag
took it. -/
theorem drag_lasts_across_replace : ∃ (v w : View ℝ Whole) (p : Point ℝ),
    v.layout.Pins v.graph ⟨"a"⟩ p ∧ v.Sparing ⟨"a"⟩ w ∧ w.graph.nodeIdx? ⟨"a"⟩ = some 1 ∧
      (w.layout.Pins w.graph ⟨"a"⟩ p ∨ w.layout.Pins w.graph ⟨"a"⟩ (p.rounded Whole)) := by
  let a : NodeEntry := ⟨⟨"a"⟩, .interface, {}⟩
  let b : NodeEntry := ⟨⟨"b"⟩, .interface, {}⟩
  let pair : Graph := .ofParts [b.node, a.node] []
  have hpair : pair.OfSnapshot := ⟨⟨[b, a], []⟩, rfl⟩
  obtain ⟨v, q, hv, hg, hd, hm, hzoom⟩ := exists_drag (S := Whole) a
  obtain ⟨i, n, hi, hn, hpins, hlasts⟩ := hv.drag_lasts Whole.rounded_rounded hd.active hm
  obtain rfl : 0 = i := Option.some.inj (hd.node.symm.trans hi)
  obtain rfl : a.node = n := by
    rw [hg] at hn
    exact Option.some.inj hn
  obtain ⟨alpha, hpoint⟩ := point_of_drag hd hm
  have hzoom' : (v.point q).value.sizes.k == (v.point q).value.camera.k := by rwa [hpoint]
  obtain ⟨r, hr⟩ : ∃ r, (v.point q).value.perform? (.tick 1) = some r :=
    ⟨_, Option.map_eq_some_iff.mpr ⟨_, tick?_of_sizes hzoom' 1, rfl⟩⟩
  have htick : (v.point q).value.Spares a.id (.tick 1) := trivial
  have hreplace : r.value.Spares a.id (.replace pair) := ⟨hpair, rfl⟩
  have hrun : (v.point q).value.Sparing a.id (r.value.replace pair).value :=
    .perform (.perform .refl htick hr) hreplace rfl
  exact ⟨_, _, _, hpins, hrun, rfl, hlasts _ hrun⟩

end View

end TunnelMap
