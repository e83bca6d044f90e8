import TunnelMap.Proofs.View.Exact

/-! The hover and the graph agree in every view that can come about. Places change their meaning
whenever another graph comes in, so what stands out has to be that of the graph that there is
now: the target is found in it, an edge that is the target is a tunnel between interfaces in it,
and what stands out is closed under the ends of edges. -/

namespace TunnelMap

namespace Graph

/-- The highlight is within the graph, and with an edge it has both its ends. -/
structure Holds (g : Graph) (l : Highlight) : Prop where
  node_lt : ∀ n ∈ l.nodes, n < g.nodes.length
  edge_lt : ∀ i ∈ l.edges, i < g.edges.length
  ends : ∀ i ∈ l.edges, ∃ e, g.edge? i = some e ∧ e.source ∈ l.nodes ∧ e.target ∈ l.nodes

theorem resolve_node_eq {g : Graph} {id : NodeId} (h : g.resolve (.node id) = .node id) :
    ∃ i, g.nodeIdx? id = some i := by
  rw [resolve_node] at h
  split_ifs at h with hi
  exact Option.isSome_iff_exists.mp hi

theorem resolve_edge_eq {g : Graph} {id : EdgeId} (h : g.resolve (.edge id) = .edge id) :
    ∃ i e, g.edgeIdx? id = some i ∧ g.edge? i = some e ∧ e.kind = .peer := by
  rw [resolve_edge] at h
  split_ifs at h with hh
  obtain ⟨e, he, hp⟩ := (Option.any_eq_true ..).mp hh
  obtain ⟨i, hi, he⟩ := Option.bind_eq_some_iff.mp he
  refine ⟨i, e, hi, he, ?_⟩
  cases hk : e.kind with
  | peer => rfl
  | spoke => simp [Edge.isHoverable, hk] at hp

namespace Sound

variable {g : Graph} (hg : g.Sound)

include hg

theorem holds_nodeHighlight {id : NodeId} {n : NodeIdx} (h : g.nodeIdx? id = some n) :
    g.Holds (g.nodeHighlight id) := by
  obtain ⟨node, hn, -⟩ := hg.nodeIdx?_eq_some.mp h
  rw [nodeHighlight_eq h]
  refine ⟨fun m hm => ?_, fun i hi => ?_, fun i hi => ?_⟩
  · rw [mem_idxSet, List.mem_cons] at hm
    rcases hm with rfl | hm
    · exact (List.getElem?_eq_some_iff.mp hn).1
    · obtain ⟨e, he, ht, rfl⟩ := hg.mem_neighbors.mp hm
      rcases Edge.ends_of_touches ht with ⟨-, ho⟩ | ⟨ho, -⟩
      · exact ho ▸ hg.target_lt he
      · exact ho ▸ hg.source_lt he
  · obtain ⟨e, he, -⟩ := hg.mem_incident.mp (mem_idxSet.mp hi)
    exact (List.getElem?_eq_some_iff.mp he).1
  · obtain ⟨e, he, ht⟩ := hg.mem_incident.mp (mem_idxSet.mp hi)
    have hacross : e.opposite n ∈ g.neighbors n :=
      hg.mem_neighbors.mpr ⟨e, List.mem_of_getElem? he, ht, rfl⟩
    refine ⟨e, he, ?_⟩
    rcases Edge.ends_of_touches ht with ⟨hs, ho⟩ | ⟨ho, hs⟩
    · simp [hs, ho, hacross]
    · simp [hs, ho, hacross]

theorem holds_edgeHighlight {id : EdgeId} {i : EdgeIdx} {e : Edge} (h : g.edgeIdx? id = some i)
    (he : g.edge? i = some e) : g.Holds (g.edgeHighlight id) := by
  have hm : e ∈ g.edges := List.mem_of_getElem? he
  rw [edgeHighlight_eq h he]
  refine ⟨fun n hn => ?_, fun j hj => ?_, fun j hj => ?_⟩
  · rw [mem_idxSet, List.mem_pair] at hn
    rcases hn with rfl | rfl
    · exact hg.source_lt hm
    · exact hg.target_lt hm
  · obtain rfl := List.mem_singleton.mp hj
    exact (List.getElem?_eq_some_iff.mp he).1
  · obtain rfl := List.mem_singleton.mp hj
    exact ⟨e, he, by simp, by simp⟩

end Sound

end Graph

/-- The hover and what stands out for it agree with the graph. -/
structure Hover.Agrees (h : Hover) (g : Graph) : Prop where
  idle : h.target = .nothing ↔ h.highlight.isEmpty
  node : ∀ id, h.target = .node id → ∃ i n, g.nodeIdx? id = some i ∧ g.node? i = some n ∧
    n.id = id ∧ h.node? g = some i ∧ h.highlight.hasNode i ∧ h.highlight = g.nodeHighlight id
  edge : ∀ id, h.target = .edge id → ∃ i e s t, g.edgeIdx? id = some i ∧ g.edge? i = some e ∧
    e.id = id ∧ e.kind = .peer ∧ g.node? e.source = some s ∧ g.node? e.target = some t ∧
    s.kind = .interface ∧ t.kind = .interface ∧ h.highlight = g.edgeHighlight id
  holds : g.Holds h.highlight

theorem Highlight.nodes_eq_nil {l : Highlight} (h : l.isEmpty) : l.nodes = [] := by
  simp only [isEmpty, Bool.and_eq_true, List.isEmpty_iff] at h
  exact h.1

namespace Hover.Settled

variable {h : Hover} {g : Graph} (hs : h.Settled g) (hg : g.Sound)

include hs

theorem of_node {id : NodeId} (ht : h.target = .node id) :
    ∃ i, g.nodeIdx? id = some i ∧ h.highlight = g.nodeHighlight id ∧ i ∈ h.highlight.nodes := by
  obtain ⟨i, hi⟩ := Graph.resolve_node_eq (ht ▸ hs.resolve_target)
  have hl : h.highlight = g.nodeHighlight id := by rw [hs.highlight_eq, ht]; rfl
  exact ⟨i, hi, hl, by simp [hl, Graph.nodeHighlight_eq hi]⟩

theorem of_edge {id : EdgeId} (ht : h.target = .edge id) :
    ∃ i e, g.edgeIdx? id = some i ∧ g.edge? i = some e ∧ e.kind = .peer ∧
      h.highlight = g.edgeHighlight id ∧ e.source ∈ h.highlight.nodes := by
  obtain ⟨i, e, hi, he, hk⟩ := Graph.resolve_edge_eq (ht ▸ hs.resolve_target)
  have hl : h.highlight = g.edgeHighlight id := by rw [hs.highlight_eq, ht]; rfl
  exact ⟨i, e, hi, he, hk, hl, by simp [hl, Graph.edgeHighlight_eq hi he]⟩

theorem nothing_iff : h.target = .nothing ↔ h.highlight.isEmpty := by
  constructor
  · intro ht
    rw [hs.highlight_eq, ht]
    rfl
  · intro hempty
    have hnil := Highlight.nodes_eq_nil hempty
    cases ht : h.target with
    | nothing => rfl
    | node id =>
      obtain ⟨i, -, -, hm⟩ := hs.of_node ht
      simp [hnil] at hm
    | edge id =>
      obtain ⟨i, e, -, -, -, -, hm⟩ := hs.of_edge ht
      simp [hnil] at hm

include hg

theorem holds : g.Holds h.highlight := by
  cases ht : h.target with
  | nothing =>
    rw [hs.highlight_eq, ht]
    exact ⟨nofun, nofun, nofun⟩
  | node id =>
    obtain ⟨i, hi, hl, -⟩ := hs.of_node ht
    exact hl ▸ hg.holds_nodeHighlight hi
  | edge id =>
    obtain ⟨i, e, hi, he, -, hl, -⟩ := hs.of_edge ht
    exact hl ▸ hg.holds_edgeHighlight hi he

theorem agrees : h.Agrees g := by
  refine ⟨hs.nothing_iff, fun id ht => ?_, fun id ht => ?_, hs.holds hg⟩
  · obtain ⟨i, hi, hl, hm⟩ := hs.of_node ht
    obtain ⟨n, hn, hid⟩ := hg.nodeIdx?_eq_some.mp hi
    exact ⟨i, n, hi, hn, hid, by simp [node?, ht, hi], by simpa [Highlight.hasNode] using hm, hl⟩
  · obtain ⟨i, e, hi, he, hk, hl, -⟩ := hs.of_edge ht
    obtain ⟨e', he', hid⟩ := hg.edgeIdx?_eq_some.mp hi
    obtain rfl : e = e' := Option.some.inj (he.symm.trans he')
    obtain ⟨s, t, hsource, htarget, hends⟩ := hg.ends e (List.mem_of_getElem? he)
    exact ⟨i, e, s, t, hi, he, hid, hk, hsource, htarget, (hends hk).1, (hends hk).2, hl⟩

end Hover.Settled

/-- In every view that can come about, the hover agrees with the graph. -/
theorem View.Reachable.hover_agrees {R S : Type} [Scalar R] [Engine S] [Precision R S]
    {v : View R S} (h : v.Reachable) : v.hover.Agrees v.graph :=
  h.settled.agrees h.sound

/-- A node that the pointer rests on keeps it when the node takes another place and gets an edge;
what stands out are the places in the new graph. -/
theorem View.hover_agrees_across_replace : ∃ v : View ℝ ℝ,
    v.hover = ⟨.node ⟨"a"⟩, ⟨[0, 1], [0]⟩⟩ ∧ v.graph.nodeIdx? ⟨"a"⟩ = some 1 ∧
      v.hover.Agrees v.graph := by
  let a : NodeEntry := ⟨⟨"a"⟩, .interface, {}⟩
  let b : NodeEntry := ⟨⟨"b"⟩, .interface, {}⟩
  let pair : Graph := .ofParts [b.node, a.node] [⟨⟨"t"⟩, 1, 0, .peer, {}⟩]
  have hlone : Graph.OfSnapshot (.ofParts [a.node] []) := ⟨⟨[a], []⟩, rfl⟩
  have hpair : pair.OfSnapshot := ⟨⟨[b, a], [⟨⟨"t"⟩, a.id, b.id, none, {}⟩]⟩, rfl⟩
  obtain ⟨o, p, ho, hv, -⟩ := View.exists_rest (S := ℝ) a.node
  have hpoint : (.point p : Operation ℝ ℝ).FromSnapshot := trivial
  have hreplace : (.replace pair : Operation ℝ ℝ).FromSnapshot := hpair
  have hrest : (o.value.point p).value.Reachable := .perform (.start hlone ho) hpoint rfl
  have hreach : ((o.value.point p).value.replace pair).value.Reachable :=
    .perform hrest hreplace rfl
  refine ⟨_, ?_, ?_, View.Reachable.hover_agrees hreach⟩
  · change ((o.value.point p).value.hover.rebind pair).1 = _
    rw [hv]
    rfl
  · rfl

end TunnelMap
