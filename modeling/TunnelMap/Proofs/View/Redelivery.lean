import TunnelMap.Proofs.Layout.Restart
import TunnelMap.Proofs.View.Pair
import TunnelMap.Proofs.View.Succession

/-! The same graph once more. It is laid out anew and all that is known of its nodes is handed down to
it, each node's share by its id; and since a layout is made up of its graph, its tuning and the places
of its nodes, nothing is lost on the way but the speed of the bodies. So the map goes on as it was, hot,
with no node held and from rest, and nothing is told. Whatever graph comes in, that it comes in a
second time changes nothing any more. -/

namespace TunnelMap

/-- A graph of a snapshot is made of its nodes and edges alone. -/
theorem Graph.Sound.eq_ofParts {g : Graph} (h : g.Sound) : g = .ofParts g.nodes g.edges :=
  calc g
    _ = ⟨g.nodes, g.edges, g.nodePlaces, g.edgePlaces, g.adjacency⟩ := rfl
    _ = .ofParts g.nodes g.edges := by
      rw [h.nodePlaces_eq, h.edgePlaces_eq, h.adjacency_eq]
      rfl

/-- A hover that is settled on a graph is found again in it as it is, and nothing is told. -/
theorem Hover.Settled.rebind_eq {h : Hover} {g : Graph} (hs : h.Settled g) :
    h.rebind g = (h, []) := by
  simp only [rebind, hs.resolve_target, if_true, ← hs.highlight_eq]

variable {R S : Type} [Scalar R] [Engine S] [Precision R S]

namespace View

theorem Yields.laid {v w : View R S} {op : Operation R S} (h : v.Yields op w)
    (hf : v.layout.Fits v.graph) (hv : v.layout.Laid v.tuning v.graph) :
    w.layout.Laid w.tuning w.graph := by
  cases h with
  | drag alpha => exact hv.congr (Layout.handles_pin ..) (Layout.links_pin ..)
  | tick dt =>
    obtain ⟨bodies, positions, alpha, hl⟩ := v.layout.tick_eq dt
    exact hv.congr (by rw [hl]) (by rw [hl])
  | retune t => exact hv.tune hf t
  | replace g => exact Layout.laid_carryOver_tune g v.graph v.tuning v.layout
  | _ => exact hv

theorem Reachable.laid {v : View R S} (h : v.Reachable) : v.layout.Laid v.tuning v.graph := by
  induction h with
  | @start g tuning _ _ _ _ _ hs =>
    obtain ⟨sizes, -, hv, -⟩ := start?_eq_some hs
    rw [hv]
    exact Layout.laid_ofGraph_tune g tuning
  | perform hv _ ho ih => exact (perform?_yields ho).laid hv.fits ih

/-- What the same graph once more makes of a view: nothing is told, the layout starts again, a drag
ends, and nothing else of the view changes, where a layout that cools as the tuning in force says goes
on to cool so. -/
structure Redelivered (v : View R S) (o : Outcome (View R S)) : Prop where
  untold : o.events = []
  view : o.value = { v with drag := .idle, layout := o.value.layout }
  layout : o.value.layout = { v.layout.restart with
    alphaDecay := o.value.layout.alphaDecay
    alphaMin := o.value.layout.alphaMin
    damping := o.value.layout.damping }
  cooled : v.layout.cooling = v.tuning.cooling → o.value.layout = v.layout.restart

/-- The layout of a graph that comes in is that of its tuning throughout. -/
theorem cooling_replace (v : View R S) (g : Graph) :
    (v.replace g).value.layout.cooling = v.tuning.cooling := by
  rw [replace, Layout.cooling_tune, Layout.cooling_carryOver, Layout.cooling_ofGraph]

theorem Reachable.replace_self {v : View R S} (h : v.Reachable) :
    v.Redelivered (v.replace v.graph) := by
  have hop : (.replace v.graph : Operation R S).FromSnapshot := h.ofSnapshot.1
  have hw : (v.replace v.graph).value.Reachable := .perform h hop rfl
  have hrebind := h.settled.rebind_eq
  obtain ⟨hplaces, hpins⟩ := Layout.tune_places
    ((Layout.ofGraph v.graph v.tuning).carryOver v.graph v.graph v.layout).1 v.tuning v.graph
  obtain ⟨hpositions, hpinned⟩ := Layout.carryOver_same h.sound
    (Layout.staffed_ofGraph v.graph v.tuning) h.fits.staffed
  have hlayout := h.laid.restart_eq hw.laid h.fits hw.fits h.tuned hw.tuned
    (hplaces.trans hpositions) (hpins.trans hpinned)
  have hrestart : (v.replace v.graph).value.layout.restart = (v.replace v.graph).value.layout :=
    Layout.restart_carryOver_tune v.graph v.graph v.tuning v.layout
  rw [hrestart] at hlayout
  refine ⟨?_, ?_, hlayout, fun hc => ?_⟩
  · rw [replace, hrebind]
  · dsimp only [replace]
    rw [hrebind]
  · obtain ⟨hdecay, hrest, hdamping⟩ := Cooling.mk.inj ((v.cooling_replace v.graph).trans hc.symm)
    rw [hlayout, hdecay, hrest, hdamping]
    rfl

/-- The same graph once more leaves the map as it was, but that it is hot and at rest and no node is
held. A graph that comes in twice makes the map what it makes of it once. -/
theorem Reachable.replace_again {v : View R S} (h : v.Reachable) {g : Graph} (hg : g.OfSnapshot) :
    (g.nodes = v.graph.nodes → g.edges = v.graph.edges → v.Redelivered (v.replace g)) ∧
      ((v.replace g).value.replace g).value = (v.replace g).value ∧
      ((v.replace g).value.replace g).events = [] := by
  refine ⟨fun hnodes hedges => ?_, ?_⟩
  · obtain rfl : g = v.graph := by
      rw [hg.sound.eq_ofParts, hnodes, hedges, ← h.sound.eq_ofParts]
    exact h.replace_self
  · have hop : (.replace g : Operation R S).FromSnapshot := hg
    have hw : (v.replace g).value.Reachable := .perform h hop rfl
    have hagain : (v.replace g).value.Redelivered ((v.replace g).value.replace g) := hw.replace_self
    have hrestart : (v.replace g).value.layout.restart = (v.replace g).value.layout :=
      Layout.restart_carryOver_tune g v.graph v.tuning v.layout
    have hlayout : ((v.replace g).value.replace g).value.layout = (v.replace g).value.layout :=
      (hagain.cooled (v.cooling_replace g)).trans hrestart
    refine ⟨?_, hagain.untold⟩
    calc ((v.replace g).value.replace g).value
      _ = { (v.replace g).value with
            drag := .idle, layout := ((v.replace g).value.replace g).value.layout } := hagain.view
      _ = { (v.replace g).value with drag := .idle, layout := (v.replace g).value.layout } := by
        rw [hlayout]
      _ = (v.replace g).value := rfl

/-- A node that is held comes in again, and then another in its place, twice. -/
theorem replace_again_while_held : ∃ (v : View ℝ ℝ) (g g' : Graph),
    v.graph = g ∧ v.drag.active ∧ v.layout.pinned[0]? = some true ∧ v.Redelivered (v.replace g) ∧
      g'.nodes.map (·.id.text) = ["b"] ∧
      ((v.replace g').value.replace g').value = (v.replace g').value := by
  let a : NodeEntry := ⟨⟨"a"⟩, .interface, {}⟩
  let b : NodeEntry := ⟨⟨"b"⟩, .interface, {}⟩
  obtain ⟨v, q, hv, hg, hd, hm, -⟩ := exists_drag (S := ℝ) a
  obtain ⟨alpha, hpoint⟩ := point_of_drag hd hm
  have hop : (.point q : Operation ℝ ℝ).FromSnapshot := trivial
  have hreach : (v.point q).value.Reachable := .perform hv hop rfl
  have hgraph : (v.point q).value.graph = .ofParts [a.node] [] := by rw [hpoint, hg]
  have hlt : 0 < v.graph.nodes.length := by
    rw [hg]
    exact Nat.one_pos
  refine ⟨(v.point q).value, .ofParts [a.node] [], .ofParts [b.node] [], hgraph, ?_, ?_,
    (hreach.replace_again (.lone a)).1 (by rw [hgraph]) (by rw [hgraph]), rfl,
    (hreach.replace_again (.lone b)).2.1⟩
  · rw [hpoint]
    exact hd.active
  · rw [hpoint]
    exact (Layout.pin_getElem?_self hv.fits.staffed hlt (v.dragged q)).1

/-- The same graph once more does more than to heat: the first of two nodes, which would go on by the
speed that it has, goes by the force alone. -/
theorem replace_stops_bodies : ∃ v : View ℝ ℝ, v.Reachable ∧ v.drag = .idle ∧
    v.layout.cooling = v.tuning.cooling ∧
    (v.replace v.graph).value ≠ { v with layout := v.layout.obey .reheat } ∧
    ((v.replace v.graph).value.layout.tick 1).positions ≠
      ((v.layout.obey .reheat).tick 1).positions := by
  obtain ⟨v, a, b, hv, hd, htuning, hc, hs, hl, hb, hfree, hax, hvx⟩ := exists_moving
  have hlayout : (v.replace v.graph).value.layout = v.layout.restart := hv.replace_self.cooled hc
  obtain ⟨hrest, hdamping⟩ := Layout.cooling_standard (htuning ▸ hc)
  have hrun : decide (v.layout.alphaMin ≤ Scalar.ofNat 1) = true :=
    decide_eq_true (hrest.trans_eq Nat.cast_one.symm)
  have hhalted : v.layout.restart.bodies = [a.halt, b.halt] := by rw [Layout.restart, hb]; rfl
  have hapart : (v.layout.restart.tick 1).positions ≠ ((v.layout.obey .reheat).tick 1).positions := by
    intro heq
    obtain ⟨hstopped, -⟩ :=
      Layout.tick_pair (l := v.layout.restart) hrun hs.restart hhalted hl hfree 1
    obtain ⟨hgoing, -⟩ := Layout.tick_pair (l := v.layout.obey .reheat) hrun
      (hs.congr rfl rfl rfl rfl rfl rfl) hb hl hfree 1
    rw [heq, hgoing] at hstopped
    set thrust := v.layout.restart.thrust a b
    have hsame :
        a.x + (a.vx + (a.ax + thrust * 1) * 1 * Body.pace) * v.layout.damping * 1 =
          a.x + (Scalar.ofNat 0 + (Scalar.ofNat 0 + thrust * 1) * 1 * Body.pace) *
            v.layout.damping * 1 := Option.some.inj hstopped
    rw [hax, Scalar.ofNat_real, Nat.cast_zero] at hsame
    nlinarith [mul_pos hvx hdamping]
  refine ⟨v, hv, hd, hc, fun h => ?_, hlayout ▸ hapart⟩
  rw [← hlayout, h] at hapart
  exact hapart rfl

end View

end TunnelMap
