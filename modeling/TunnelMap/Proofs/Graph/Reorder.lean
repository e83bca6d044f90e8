import TunnelMap.Proofs.Graph.Named

/-! The order of a snapshot does not matter. In another order its nodes and edges take other places, the
lists of the adjacency come in another order, and of several ids that repeat another may be met first; but
whether an id repeats, which edges have their ends, what their kinds come to and what stands out for an id
can all be said of the entries as a set. -/

namespace TunnelMap.Graph

/-- Two graphs that differ in nothing but the places: they have the same nodes and, by ids, the same edges,
and the same stands out for each id. -/
structure Alike (g g' : Graph) : Prop where
  nodes : g.nodes.Perm g'.nodes
  edges : ∃ names names', g.Named names ∧ g'.Named names' ∧ names.Perm names'
  nodeHighlight : ∀ id, ∃ nodes edges,
    g.Shows (g.nodeHighlight id) nodes edges ∧ g'.Shows (g'.nodeHighlight id) nodes edges
  edgeHighlight : ∀ id, ∃ nodes edges,
    g.Shows (g.edgeHighlight id) nodes edges ∧ g'.Shows (g'.edgeHighlight id) nodes edges

section Entries

variable {nodes nodes' : List NodeEntry} {edges edges' : List EdgeEntry}

theorem resolves_perm (hn : nodes.Perm nodes') (raw : EdgeEntry) :
    Resolves nodes raw ↔ Resolves nodes' raw :=
  and_congr (hn.map (·.id)).mem_iff (hn.map (·.id)).mem_iff

theorem resolved_perm (hn : nodes.Perm nodes') (he : edges.Perm edges') :
    (resolved nodes edges).Perm (resolved nodes' edges') := by
  have hsame : (fun raw => decide (Resolves nodes raw)) = fun raw => decide (Resolves nodes' raw) :=
    funext fun raw => decide_eq_decide.mpr (resolves_perm hn raw)
  rw [resolved, resolved, hsame]
  exact he.filter _

theorem nameAmong_perm (hn : nodes.Perm nodes') : nameAmong nodes = nameAmong nodes' := by
  funext raw
  simp only [nameAmong, kindAmong, hn.mem_iff]

end Entries

section Names

variable {ids ids' : List NodeId} {names names' : List NamedEdge}

theorem aroundNode_perm (hi : ids.Perm ids') (hn : names.Perm names') (id : NodeId) :
    aroundNode ids names id = aroundNode ids' names' id := by
  simp only [aroundNode, hi.mem_iff, hn.mem_iff]

theorem edgesAt_perm (hn : names.Perm names') (id : NodeId) :
    edgesAt names id = edgesAt names' id := by
  simp only [edgesAt, hn.mem_iff]

theorem endsOf_perm (hn : names.Perm names') (id : EdgeId) : endsOf names id = endsOf names' id := by
  simp only [endsOf, hn.mem_iff]

theorem onlyEdge_perm (hn : names.Perm names') (id : EdgeId) :
    onlyEdge names id = onlyEdge names' id := by
  simp only [onlyEdge, hn.mem_iff]

end Names

/-- What stands out in a graph depends on its nodes and edges by their ids only. -/
theorem Sound.alike {g g' : Graph} (hg : g.Sound) (hg' : g'.Sound) {names names' : List NamedEdge}
    (hnames : g.Named names) (hnames' : g'.Named names') (hn : g.nodes.Perm g'.nodes)
    (he : names.Perm names') : g.Alike g' where
  nodes := hn
  edges := ⟨names, names', hnames, hnames', he⟩
  nodeHighlight id := by
    refine ⟨_, _, hg.shows_nodeHighlight hnames id, ?_⟩
    rw [aroundNode_perm (hn.map (·.id)) he, edgesAt_perm he]
    exact hg'.shows_nodeHighlight hnames' id
  edgeHighlight id := by
    refine ⟨_, _, hg.shows_edgeHighlight hnames id, ?_⟩
    rw [endsOf_perm he, onlyEdge_perm he]
    exact hg'.shows_edgeHighlight hnames' id

theorem exists_build_ok_iff {nodes : List NodeEntry} {edges : List EdgeEntry} :
    (∃ g, (build nodes edges).result = .ok g) ↔
      (nodes.map (·.id)).Nodup ∧ ((resolved nodes edges).map (·.id)).Nodup := by
  simp only [build_ok_iff]
  exact ⟨fun ⟨g, hn, he, _⟩ => ⟨hn, he⟩, fun ⟨hn, he⟩ => ⟨_, hn, he, rfl⟩⟩

/-- A snapshot and the same snapshot in another order both have a graph or both have none, and the two
graphs are alike. -/
theorem build_perm {nodes nodes' : List NodeEntry} {edges edges' : List EdgeEntry}
    (hn : nodes.Perm nodes') (he : edges.Perm edges') :
    ((∃ g, (build nodes edges).result = .ok g) ↔ ∃ g', (build nodes' edges').result = .ok g') ∧
      ∀ g g', (build nodes edges).result = .ok g → (build nodes' edges').result = .ok g' →
        g.Alike g' := by
  have hresolved : (resolved nodes edges).Perm (resolved nodes' edges') := resolved_perm hn he
  constructor
  · rw [exists_build_ok_iff, exists_build_ok_iff, (hn.map _).nodup_iff, (hresolved.map _).nodup_iff]
  · intro g g' hg hg'
    have hnames : ((resolved nodes edges).map (nameAmong nodes)).Perm
        ((resolved nodes' edges').map (nameAmong nodes')) := by
      rw [nameAmong_perm hn]
      exact hresolved.map _
    refine (Sound.of_build hg).alike (.of_build hg') (named_of_build hg) (named_of_build hg') ?_ hnames
    obtain ⟨-, -, rfl⟩ := build_ok_iff.mp hg
    obtain ⟨-, -, rfl⟩ := build_ok_iff.mp hg'
    exact hn.map _

/-- A pair of parallel tunnels, a loop and a dropped edge, from the last to the first. -/
theorem build_perm_reversed : ∃ nodes edges g g', (build nodes edges).result = .ok g ∧
    (build nodes.reverse edges.reverse).result = .ok g' ∧
      edges.map (·.id.text) = ["gone", "loop", "s", "t", "u"] ∧
      g.edges.map (·.id.text) = ["loop", "s", "t", "u"] ∧ g.neighbors 0 = [0, 1, 2, 2] ∧
      g'.edges.map (·.id.text) = ["u", "t", "s", "loop"] ∧ g'.neighbors 2 = [0, 0, 1, 2] ∧
      g.Alike g' := by
  let nodes : List NodeEntry :=
    [⟨⟨"a"⟩, .interface, {}⟩, ⟨⟨"h"⟩, .host, {}⟩, ⟨⟨"b"⟩, .interface, {}⟩]
  let edges : List EdgeEntry :=
    [⟨⟨"gone"⟩, ⟨"a"⟩, ⟨"c"⟩, none, {}⟩, ⟨⟨"loop"⟩, ⟨"a"⟩, ⟨"a"⟩, none, {}⟩,
      ⟨⟨"s"⟩, ⟨"h"⟩, ⟨"a"⟩, none, {}⟩, ⟨⟨"t"⟩, ⟨"a"⟩, ⟨"b"⟩, none, {}⟩,
      ⟨⟨"u"⟩, ⟨"b"⟩, ⟨"a"⟩, none, {}⟩]
  have hg : (build nodes edges).result = .ok _ := rfl
  have hg' : (build nodes.reverse edges.reverse).result = .ok _ := rfl
  have hperm := build_perm (List.reverse_perm nodes).symm (List.reverse_perm edges).symm
  exact ⟨nodes, edges, _, _, hg, hg', rfl, rfl, rfl, rfl, rfl, hperm.2 _ _ hg hg'⟩

end TunnelMap.Graph
