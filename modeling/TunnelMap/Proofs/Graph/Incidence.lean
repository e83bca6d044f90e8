import TunnelMap.Proofs.Graph.Build

/-! What holds of every graph of a snapshot: its ids tell nodes and edges apart, its edges end at
its nodes, tunnels at interfaces only, and its adjacency lists what a look through all edges
finds. An edge is listed at each of its ends, in the order of the edges, and at the only end of
a loop once. -/

namespace TunnelMap

/-- Whether a node is an end of an edge. -/
def Edge.touches (e : Edge) (n : NodeIdx) : Bool := e.source = n || e.target = n

theorem Edge.touches_iff {e : Edge} {n : NodeIdx} : e.touches n ↔ e.source = n ∨ e.target = n := by
  simp [Edge.touches]

/-- An edge at a node joins it to the node across. -/
theorem Edge.ends_of_touches {e : Edge} {n : NodeIdx} (h : e.touches n) :
    (e.source = n ∧ e.target = e.opposite n) ∨ (e.source = e.opposite n ∧ e.target = n) := by
  unfold Edge.opposite
  rcases Edge.touches_iff.mp h with hs | ht
  · exact .inl ⟨hs, by rw [if_pos hs]⟩
  · split_ifs with hs
    · exact .inl ⟨hs, rfl⟩
    · exact .inr ⟨rfl, ht⟩

/-! ### Adjacency -/

namespace Adjacency

theorem add_incident (a : Adjacency) (i : EdgeIdx) (e : Edge) (n : NodeIdx) :
    (a.add i e).incident[n]? = a.incident[n]?.map (· ++ if e.touches n then [i] else []) := by
  by_cases hl : e.source = e.target <;> by_cases hs : e.source = n <;> by_cases ht : e.target = n <;>
    simp_all [add, attach, Edge.touches]

theorem add_neighbors (a : Adjacency) (i : EdgeIdx) (e : Edge) (n : NodeIdx) :
    (a.add i e).neighbors[n]? =
      a.neighbors[n]?.map (· ++ if e.touches n then [e.opposite n] else []) := by
  by_cases hl : e.source = e.target <;> by_cases hs : e.source = n <;> by_cases ht : e.target = n <;>
    simp_all [add, attach, Edge.touches, Edge.opposite]

theorem foldl_add (edges : List (Edge × EdgeIdx)) (a : Adjacency) (n : NodeIdx) :
    let b := edges.foldl (fun a (e, i) => a.add i e) a
    let here := edges.filter (·.1.touches n)
    b.incident[n]? = a.incident[n]?.map (· ++ here.map (·.2)) ∧
      b.neighbors[n]? = a.neighbors[n]?.map (· ++ here.map (·.1.opposite n)) := by
  induction edges generalizing a with
  | nil => simp
  | cons p edges ih =>
    obtain ⟨e, i⟩ := p
    obtain ⟨hi, hn⟩ := ih (a.add i e)
    simp only [List.foldl_cons, hi, hn, add_incident, add_neighbors, Option.map_map,
      Function.comp_def, List.append_assoc]
    by_cases ht : e.touches n <;> simp [ht]

end Adjacency

namespace Graph

/-! ### Graphs of snapshots -/

/-- The graph comes from a snapshot. -/
def OfSnapshot (g : Graph) : Prop := ∃ s : Snapshot, s.build.result = .ok g

theorem OfSnapshot.lone (e : NodeEntry) : OfSnapshot (.ofParts [e.node] []) :=
  ⟨⟨[e], []⟩, rfl⟩

/-- What holds of a graph of a snapshot. -/
structure Sound (g : Graph) : Prop where
  nodes_nodup : (g.nodes.map (·.id)).Nodup
  edges_nodup : (g.edges.map (·.id)).Nodup
  nodePlaces_eq : g.nodePlaces = (Roll.ofList (·.id) g.nodes).places
  edgePlaces_eq : g.edgePlaces = (Roll.ofList (·.id) g.edges).places
  adjacency_eq : g.adjacency = .ofEdges g.nodes.length g.edges
  ends : ∀ e ∈ g.edges, ∃ s t, g.node? e.source = some s ∧ g.node? e.target = some t ∧
    (e.kind = .peer → s.kind = .interface ∧ t.kind = .interface)

theorem edges_id (nodes : List NodeEntry) (raws : List EdgeEntry) :
    (raws.filterMap (edgeOf? (nodes.map NodeEntry.node))).map (·.id) =
      (resolved nodes raws).map (·.id) := by
  have h := forall₂_settles nodes raws
  generalize raws.filterMap (edgeOf? (nodes.map NodeEntry.node)) = edges at h ⊢
  generalize resolved nodes raws = taken at h ⊢
  induction h with
  | nil => rfl
  | cons hs _ ih => simp [hs.id, ih]

theorem Sound.of_build {nodes : List NodeEntry} {edges : List EdgeEntry} {g : Graph}
    (h : (build nodes edges).result = .ok g) : g.Sound := by
  obtain ⟨hn, he, rfl⟩ := build_ok_iff.mp h
  refine ⟨?_, ?_, rfl, rfl, rfl, fun e hm => ?_⟩
  · simpa [ofParts, NodeEntry.node, Function.comp_def] using hn
  · simpa only [ofParts, edges_id] using he
  · obtain ⟨raw, -, hr⟩ := List.mem_filterMap.mp hm
    obtain ⟨s, t, hs, -, ht, -, hk⟩ := (settles_of_edgeOf? hr).ends
    refine ⟨s.node, t.node, by simp [node?, ofParts, hs], by simp [node?, ofParts, ht], fun hp => ?_⟩
    have hhost : ¬ (s.kind = .host ∨ t.kind = .host) := fun hh => by simp [hk, hh] at hp
    rw [not_or] at hhost
    constructor
    · cases hsk : s.kind with
      | host => exact absurd hsk hhost.1
      | interface => exact hsk
    · cases htk : t.kind with
      | host => exact absurd htk hhost.2
      | interface => exact htk

theorem OfSnapshot.sound {g : Graph} (h : g.OfSnapshot) : g.Sound :=
  let ⟨_, hs⟩ := h
  .of_build hs

namespace Sound

variable {g : Graph} (h : g.Sound)

include h

/-! ### Lookups -/

theorem nodeIdx?_eq_some {id : NodeId} {i : NodeIdx} :
    g.nodeIdx? id = some i ↔ ∃ n, g.node? i = some n ∧ n.id = id := by
  rw [nodeIdx?, h.nodePlaces_eq]
  exact Roll.place?_ofList_eq_some h.nodes_nodup

theorem edgeIdx?_eq_some {id : EdgeId} {i : EdgeIdx} :
    g.edgeIdx? id = some i ↔ ∃ e, g.edge? i = some e ∧ e.id = id := by
  rw [edgeIdx?, h.edgePlaces_eq]
  exact Roll.place?_ofList_eq_some h.edges_nodup

/-! ### Incidence -/

theorem incident_eq (n : NodeIdx) :
    g.incident n =
      if n < g.nodes.length then (g.edges.zipIdx.filter (·.1.touches n)).map (·.2) else [] := by
  rw [incident, h.adjacency_eq, Adjacency.ofEdges, (Adjacency.foldl_add ..).1]
  split_ifs with hn <;> simp [Adjacency.empty, hn]

theorem neighbors_eq (n : NodeIdx) :
    g.neighbors n =
      if n < g.nodes.length then (g.edges.zipIdx.filter (·.1.touches n)).map (·.1.opposite n)
      else [] := by
  rw [neighbors, h.adjacency_eq, Adjacency.ofEdges, (Adjacency.foldl_add ..).2]
  split_ifs with hn <;> simp [Adjacency.empty, hn]

theorem source_lt {e : Edge} (he : e ∈ g.edges) : e.source < g.nodes.length := by
  obtain ⟨s, -, hs, -⟩ := h.ends e he
  exact (List.getElem?_eq_some_iff.mp hs).1

theorem target_lt {e : Edge} (he : e ∈ g.edges) : e.target < g.nodes.length := by
  obtain ⟨-, t, -, ht, -⟩ := h.ends e he
  exact (List.getElem?_eq_some_iff.mp ht).1

theorem lt_of_touches {e : Edge} (he : e ∈ g.edges) {n : NodeIdx} (hn : e.touches n) :
    n < g.nodes.length := by
  rcases Edge.touches_iff.mp hn with rfl | rfl
  · exact h.source_lt he
  · exact h.target_lt he

/-- The edges listed at a node are those that touch it. -/
theorem mem_incident {n : NodeIdx} {i : EdgeIdx} :
    i ∈ g.incident n ↔ ∃ e, g.edge? i = some e ∧ e.touches n := by
  rw [h.incident_eq]
  split_ifs with hn
  · simp [List.mem_zipIdx_iff_getElem?, edge?]
  · simp only [List.not_mem_nil, false_iff, not_exists, not_and]
    exact fun e he ht => hn (h.lt_of_touches (List.mem_of_getElem? he) ht)

/-- The nodes listed at a node are those across its edges. -/
theorem mem_neighbors {n m : NodeIdx} :
    m ∈ g.neighbors n ↔ ∃ e ∈ g.edges, e.touches n ∧ e.opposite n = m := by
  rw [h.neighbors_eq]
  split_ifs with hn
  · simp only [List.mem_map, List.mem_filter]
    constructor
    · rintro ⟨⟨e, i⟩, ⟨hm, ht⟩, rfl⟩
      exact ⟨e, List.mem_of_getElem? (List.mem_zipIdx_iff_getElem?.mp hm), ht, rfl⟩
    · rintro ⟨e, he, ht, rfl⟩
      obtain ⟨i, hi⟩ := List.getElem?_of_mem he
      exact ⟨(e, i), ⟨List.mem_zipIdx_iff_getElem?.mpr hi, ht⟩, rfl⟩
  · simp only [List.not_mem_nil, false_iff, not_exists, not_and]
    exact fun e he ht => (hn (h.lt_of_touches he ht)).elim

theorem incident_pairwise (n : NodeIdx) : (g.incident n).Pairwise (· < ·) := by
  rw [h.incident_eq]
  split_ifs
  · have hall : (g.edges.zipIdx.map (·.2)).Pairwise (· < ·) := by
      rw [List.zipIdx_map_snd]
      exact List.pairwise_lt_range'
    exact hall.sublist (List.filter_sublist.map _)
  · exact .nil

theorem neighbors_length (n : NodeIdx) : (g.neighbors n).length = (g.incident n).length := by
  rw [h.neighbors_eq, h.incident_eq]
  split_ifs <;> simp

/-- At one place of the two lists of a node stand an edge and the node across it. -/
theorem neighbors_getElem? {n : NodeIdx} {j : Nat} {i : EdgeIdx} (hj : (g.incident n)[j]? = some i) :
    ∃ e, g.edge? i = some e ∧ (g.neighbors n)[j]? = some (e.opposite n) := by
  rw [h.incident_eq] at hj
  split_ifs at hj with hn
  · obtain ⟨⟨e, i⟩, hp, rfl⟩ := Option.map_eq_some_iff.mp (List.getElem?_map .. ▸ hj)
    have hm := List.mem_of_mem_filter (List.mem_of_getElem? hp)
    refine ⟨e, List.mem_zipIdx_iff_getElem?.mp hm, ?_⟩
    rw [h.neighbors_eq, if_pos hn, List.getElem?_map, hp]
    rfl
  · simp at hj

end Sound

/-- What the tables and the adjacency of a graph say is what a look through its nodes and edges
finds. -/
structure Indexed (g : Graph) : Prop where
  nodeIdx? : ∀ id i, g.nodeIdx? id = some i ↔ ∃ n, g.node? i = some n ∧ n.id = id
  edgeIdx? : ∀ id i, g.edgeIdx? id = some i ↔ ∃ e, g.edge? i = some e ∧ e.id = id
  ends : ∀ e ∈ g.edges, e.source < g.nodes.length ∧ e.target < g.nodes.length
  incident_pairwise : ∀ n, (g.incident n).Pairwise (· < ·)
  mem_incident : ∀ n i, i ∈ g.incident n ↔ ∃ e, g.edge? i = some e ∧ (e.source = n ∨ e.target = n)
  neighbors_length : ∀ n, (g.neighbors n).length = (g.incident n).length
  neighbors_getElem? : ∀ (n : NodeIdx) (j : Nat) (i : EdgeIdx), (g.incident n)[j]? = some i →
    ∃ e, g.edge? i = some e ∧ (g.neighbors n)[j]? = some (e.opposite n)
  outside : ∀ n, g.nodes.length ≤ n → g.incident n = [] ∧ g.neighbors n = []

/-- Every graph that is built is indexed, whatever edges were dropped on the way. -/
theorem build_indexed {nodes : List NodeEntry} {edges : List EdgeEntry} {g : Graph}
    (h : (build nodes edges).result = .ok g) : g.Indexed := by
  have hg : g.Sound := .of_build h
  refine ⟨fun _ _ => hg.nodeIdx?_eq_some, fun _ _ => hg.edgeIdx?_eq_some,
    fun e he => ⟨hg.source_lt he, hg.target_lt he⟩, hg.incident_pairwise, fun n i => ?_,
    hg.neighbors_length, fun _ _ _ => hg.neighbors_getElem?, fun n hn => ?_⟩
  · simp only [hg.mem_incident, Edge.touches_iff]
  · rw [hg.incident_eq, hg.neighbors_eq, if_neg (Nat.not_lt.mpr hn), if_neg (Nat.not_lt.mpr hn)]
    exact ⟨rfl, rfl⟩

/-- A loop is listed once and a pair of parallel edges twice; an edge that was dropped takes no
place. -/
theorem build_indexed_around_loop : ∃ nodes edges g, (build nodes edges).result = .ok g ∧
    edges.map (·.id.text) = ["gone", "loop", "s", "t", "u"] ∧ g.edgeIdx? ⟨"u"⟩ = some 3 ∧
      g.incident 0 = [0, 1, 2, 3] ∧ g.neighbors 0 = [0, 1, 2, 2] ∧ g.Indexed := by
  let nodes : List NodeEntry :=
    [⟨⟨"a"⟩, .interface, {}⟩, ⟨⟨"h"⟩, .host, {}⟩, ⟨⟨"b"⟩, .interface, {}⟩]
  let edges : List EdgeEntry :=
    [⟨⟨"gone"⟩, ⟨"a"⟩, ⟨"c"⟩, none, {}⟩, ⟨⟨"loop"⟩, ⟨"a"⟩, ⟨"a"⟩, none, {}⟩,
      ⟨⟨"s"⟩, ⟨"h"⟩, ⟨"a"⟩, none, {}⟩, ⟨⟨"t"⟩, ⟨"a"⟩, ⟨"b"⟩, none, {}⟩,
      ⟨⟨"u"⟩, ⟨"b"⟩, ⟨"a"⟩, none, {}⟩]
  have h : (build nodes edges).result = .ok _ := rfl
  exact ⟨nodes, edges, _, h, rfl, rfl, rfl, rfl, build_indexed h⟩

end Graph

end TunnelMap
