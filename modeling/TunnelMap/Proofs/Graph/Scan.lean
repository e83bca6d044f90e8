import Mathlib.Data.List.Sort
import TunnelMap.Proofs.Graph.Incidence
import TunnelMap.Proofs.Hover.Turn

/-! What stands out, by a look through all edges. A highlight is put together from the lists that a node
has of its edges and its neighbors, and these were filled edge by edge while the graph was built. Here no
list is asked: every edge of the graph is looked at anew, and every node is tried as an end of it. Sets of
places are lists in increasing order, so the two come to the same list once they have the same members. -/

namespace TunnelMap

/-! ### Sets of places -/

theorem insertIdx_pairwise (i : Nat) {is : List Nat} (h : is.Pairwise (· < ·)) :
    (insertIdx i is).Pairwise (· < ·) := by
  induction is with
  | nil => exact List.pairwise_singleton _ i
  | cons j js ih =>
    obtain ⟨hj, hjs⟩ := List.pairwise_cons.mp h
    simp only [insertIdx]
    split_ifs with hlt heq
    · refine List.pairwise_cons.mpr ⟨fun k hk => ?_, h⟩
      rcases List.mem_cons.mp hk with rfl | hk
      · exact hlt
      · exact hlt.trans (hj k hk)
    · exact h
    · refine List.pairwise_cons.mpr ⟨fun k hk => ?_, ih hjs⟩
      rcases mem_insertIdx.mp hk with rfl | hk
      · omega
      · exact hj k hk

theorem idxSet_pairwise (is : List Nat) : (idxSet is).Pairwise (· < ·) := by
  induction is with
  | nil => exact .nil
  | cons i is ih => exact insertIdx_pairwise i ih

/-- A set of places below a bound is what a look through all places below it finds. -/
theorem idxSet_eq_filter {is : List Nat} {bound : Nat} {p : Nat → Bool}
    (h : ∀ i, i ∈ is ↔ i < bound ∧ p i) : idxSet is = (List.range bound).filter p := by
  have hscan : ((List.range bound).filter p).Pairwise (· < ·) := List.pairwise_lt_range.filter p
  refine (idxSet_pairwise is).eq_of_mem_iff hscan fun i => ?_
  rw [mem_idxSet, h, List.mem_filter, List.mem_range]

theorem Edge.touches_iff_of_touches {e : Edge} {n m : NodeIdx} (h : e.touches n) :
    e.touches m ↔ m = n ∨ m = e.opposite n := by
  rw [Edge.touches_iff]
  rcases Edge.ends_of_touches h with ⟨hs, ht⟩ | ⟨hs, ht⟩
  · rw [hs, ht, eq_comm, eq_comm (a := e.opposite n)]
  · rw [hs, ht, or_comm, eq_comm, eq_comm (a := e.opposite n)]

namespace Graph

/-! ### Looking through all edges -/

/-- The edges that a node is an end of. -/
def edgesTouching (g : Graph) (n : NodeIdx) : List EdgeIdx :=
  (List.range g.edges.length).filter fun i => (g.edge? i).any (·.touches n)

/-- A node and all ends of the edges that it is an end of. -/
def nodesAround (g : Graph) (n : NodeIdx) : List NodeIdx :=
  (List.range g.nodes.length).filter fun m =>
    m = n || g.edges.any fun e => e.touches n && e.touches m

/-- The two ends of an edge. -/
def nodesTouched (g : Graph) (e : Edge) : List NodeIdx :=
  (List.range g.nodes.length).filter e.touches

/-- A node is an end of some edge of which another is an end, or is the other. -/
theorem mem_nodesAround {g : Graph} {n m : NodeIdx} :
    m ∈ g.nodesAround n ↔
      m < g.nodes.length ∧ (m = n ∨ ∃ e ∈ g.edges, e.touches n ∧ e.touches m) := by
  simp [nodesAround]

theorem mem_nodesAround_comm {g : Graph} {n m : NodeIdx} (hn : n < g.nodes.length)
    (hm : m < g.nodes.length) : m ∈ g.nodesAround n ↔ n ∈ g.nodesAround m := by
  rw [mem_nodesAround, mem_nodesAround, eq_comm]
  simp only [hn, hm, true_and, and_comm (a := Edge.touches _ n = true)]

namespace Sound

variable {g : Graph} (hg : g.Sound)

include hg

theorem idxSet_incident (n : NodeIdx) : idxSet (g.incident n) = g.edgesTouching n := by
  refine idxSet_eq_filter fun i => ?_
  rw [hg.mem_incident, Option.any_eq_true]
  constructor
  · rintro ⟨e, he, ht⟩
    exact ⟨(List.getElem?_eq_some_iff.mp he).1, e, he, ht⟩
  · rintro ⟨-, e, he, ht⟩
    exact ⟨e, he, ht⟩

theorem idxSet_neighbors {n : NodeIdx} (hn : n < g.nodes.length) :
    idxSet (n :: g.neighbors n) = g.nodesAround n := by
  refine idxSet_eq_filter fun m => ?_
  simp only [List.mem_cons, hg.mem_neighbors, Bool.or_eq_true, decide_eq_true_eq, List.any_eq_true,
    Bool.and_eq_true]
  constructor
  · rintro (rfl | ⟨e, he, ht, rfl⟩)
    · exact ⟨hn, .inl rfl⟩
    · have hacross : e.touches (e.opposite n) := (Edge.touches_iff_of_touches ht).mpr (.inr rfl)
      exact ⟨hg.lt_of_touches he hacross, .inr ⟨e, he, ht, hacross⟩⟩
  · rintro ⟨-, rfl | ⟨e, he, ht, hm⟩⟩
    · exact .inl rfl
    · rcases (Edge.touches_iff_of_touches ht).mp hm with rfl | rfl
      · exact .inl rfl
      · exact .inr ⟨e, he, ht, rfl⟩

theorem idxSet_ends {e : Edge} (he : e ∈ g.edges) :
    idxSet [e.source, e.target] = g.nodesTouched e := by
  refine idxSet_eq_filter fun m => ?_
  rw [List.mem_pair, Edge.touches_iff, eq_comm, eq_comm (b := e.target)]
  constructor
  · rintro (rfl | rfl)
    · exact ⟨hg.source_lt he, .inl rfl⟩
    · exact ⟨hg.target_lt he, .inr rfl⟩
  · exact And.right

theorem nodeHighlight_scan {n : NodeIdx} {node : Node} (hn : g.node? n = some node) :
    g.nodeHighlight node.id = ⟨g.nodesAround n, g.edgesTouching n⟩ := by
  have hidx : g.nodeIdx? node.id = some n := hg.nodeIdx?_eq_some.mpr ⟨node, hn, rfl⟩
  have hlt : n < g.nodes.length := (List.getElem?_eq_some_iff.mp hn).1
  rw [nodeHighlight_eq hidx, hg.idxSet_neighbors hlt, hg.idxSet_incident]

theorem edgeHighlight_scan {i : EdgeIdx} {e : Edge} (he : g.edge? i = some e) :
    g.edgeHighlight e.id = ⟨g.nodesTouched e, [i]⟩ := by
  have hidx : g.edgeIdx? e.id = some i := hg.edgeIdx?_eq_some.mpr ⟨e, he, rfl⟩
  rw [edgeHighlight_eq hidx he, hg.idxSet_ends (List.mem_of_getElem? he)]

theorem nodeHighlight_unknown {id : NodeId} (h : ∀ n ∈ g.nodes, n.id ≠ id) :
    g.nodeHighlight id = .none := by
  cases hi : g.nodeIdx? id with
  | none => simp [nodeHighlight, hi]
  | some i =>
    obtain ⟨n, hn, hid⟩ := hg.nodeIdx?_eq_some.mp hi
    exact absurd hid (h n (List.mem_of_getElem? hn))

theorem edgeHighlight_unknown {id : EdgeId} (h : ∀ e ∈ g.edges, e.id ≠ id) :
    g.edgeHighlight id = .none := by
  cases hi : g.edgeIdx? id with
  | none => simp [edgeHighlight, hi]
  | some i =>
    obtain ⟨e, he, hid⟩ := hg.edgeIdx?_eq_some.mp hi
    exact absurd hid (h e (List.mem_of_getElem? he))

end Sound

/-- What stands out for a target is what a look through all edges finds: around a node the edges that
touch it and their ends, and of an edge itself and its ends. For no target, and for an id that no node or
edge has, nothing stands out. Of two nodes, either stands out for the other or neither does. -/
structure Scanned (g : Graph) : Prop where
  nothing : g.highlight .nothing = .none
  unknownNode : ∀ id, (∀ n ∈ g.nodes, n.id ≠ id) → g.highlight (.node id) = .none
  unknownEdge : ∀ id, (∀ e ∈ g.edges, e.id ≠ id) → g.highlight (.edge id) = .none
  node : ∀ n node, g.node? n = some node →
    g.highlight (.node node.id) = ⟨g.nodesAround n, g.edgesTouching n⟩
  edge : ∀ i e, g.edge? i = some e → g.highlight (.edge e.id) = ⟨g.nodesTouched e, [i]⟩
  symm : ∀ n m a b, g.node? n = some a → g.node? m = some b →
    ((g.highlight (.node a.id)).hasNode m ↔ (g.highlight (.node b.id)).hasNode n)

/-- In every graph that is built, the highlights are those of a look through all edges. -/
theorem build_scanned {nodes : List NodeEntry} {edges : List EdgeEntry} {g : Graph}
    (h : (build nodes edges).result = .ok g) : g.Scanned := by
  have hg : g.Sound := .of_build h
  refine ⟨rfl, fun _ => hg.nodeHighlight_unknown, fun _ => hg.edgeHighlight_unknown,
    fun _ _ => hg.nodeHighlight_scan, fun _ _ => hg.edgeHighlight_scan, fun n m a b hn hm => ?_⟩
  have hnlt : n < g.nodes.length := (List.getElem?_eq_some_iff.mp hn).1
  have hmlt : m < g.nodes.length := (List.getElem?_eq_some_iff.mp hm).1
  simp only [highlight, hg.nodeHighlight_scan hn, hg.nodeHighlight_scan hm, Highlight.hasNode,
    List.contains_iff_mem]
  exact mem_nodesAround_comm hnlt hmlt

/-- Around a node with a loop, two parallel edges and an edge that leads out of the snapshot. -/
theorem build_scanned_around_loop : ∃ nodes edges g, (build nodes edges).result = .ok g ∧
    edges.map (·.id.text) = ["gone", "loop", "t", "u", "v"] ∧
      g.highlight (.node ⟨"a"⟩) = ⟨[0, 2], [0, 1, 2]⟩ ∧
      g.highlight (.edge ⟨"loop"⟩) = ⟨[0], [0]⟩ ∧ g.Scanned := by
  let nodes : List NodeEntry :=
    [⟨⟨"a"⟩, .interface, {}⟩, ⟨⟨"h"⟩, .host, {}⟩, ⟨⟨"b"⟩, .interface, {}⟩]
  let edges : List EdgeEntry :=
    [⟨⟨"gone"⟩, ⟨"a"⟩, ⟨"c"⟩, none, {}⟩, ⟨⟨"loop"⟩, ⟨"a"⟩, ⟨"a"⟩, none, {}⟩,
      ⟨⟨"t"⟩, ⟨"a"⟩, ⟨"b"⟩, none, {}⟩, ⟨⟨"u"⟩, ⟨"b"⟩, ⟨"a"⟩, none, {}⟩,
      ⟨⟨"v"⟩, ⟨"h"⟩, ⟨"b"⟩, none, {}⟩]
  have h : (build nodes edges).result = .ok _ := rfl
  exact ⟨nodes, edges, _, h, rfl, rfl, rfl, build_scanned h⟩

end Graph

end TunnelMap
