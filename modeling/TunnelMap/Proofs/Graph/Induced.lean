import TunnelMap.Proofs.Graph.Named

/-! A snapshot that shows only a part of the nodes has the part of the graph that lies between them. An
edge that lost an end is dropped before anything is made of its id, so that fewer nodes never make an id
repeat; an edge that keeps both its ends keeps its kind, since these are the same nodes as before. -/

namespace TunnelMap.Graph

/-- Both ends of the edge are among the nodes with the given ids. -/
def endsIn (g : Graph) (ids : List NodeId) (e : Edge) : Bool :=
  (g.name? e).any fun n => n.source ∈ ids ∧ n.target ∈ ids

/-- The edges between the nodes with the given ids. -/
def between (ids : List NodeId) (names : List NamedEdge) : List NamedEdge :=
  names.filter fun n => n.source ∈ ids ∧ n.target ∈ ids

theorem mem_between {ids : List NodeId} {names : List NamedEdge} {n : NamedEdge} :
    n ∈ between ids names ↔ n ∈ names ∧ n.source ∈ ids ∧ n.target ∈ ids := by
  simp [between]

theorem Named.filter_endsIn {g : Graph} {names : List NamedEdge} (h : g.Named names)
    (ids : List NodeId) :
    (g.edges.filter (g.endsIn ids)).map g.name? = (between ids names).map some := by
  have hcomp : g.endsIn ids =
      (fun n : Option NamedEdge => n.any fun n => n.source ∈ ids ∧ n.target ∈ ids) ∘ g.name? := rfl
  rw [hcomp, ← List.filter_map, h, List.filter_map]
  rfl

/-! ### Entries -/

section Entries

variable {nodes kept : List NodeEntry} (hk : kept.Sublist nodes)

include hk

theorem resolves_of_sublist {raw : EdgeEntry} (h : Resolves kept raw) : Resolves nodes raw :=
  ⟨(hk.map _).subset h.1, (hk.map _).subset h.2⟩

theorem resolved_sublist (edges : List EdgeEntry) :
    resolved kept edges = (resolved nodes edges).filter fun raw => Resolves kept raw := by
  rw [resolved, resolved, List.filter_filter]
  refine List.filter_congr fun raw _ => ?_
  by_cases h : Resolves kept raw
  · simp [h, resolves_of_sublist hk h]
  · simp [h]

/-- The kind of an entry goes by its ends, and these are there as before. -/
theorem nameAmong_sublist (hn : (nodes.map (·.id)).Nodup) {raw : EdgeEntry} (h : Resolves kept raw) :
    nameAmong kept raw = nameAmong nodes raw := by
  obtain ⟨s, hs, hsource⟩ := List.mem_map.mp h.1
  obtain ⟨t, ht, htarget⟩ := List.mem_map.mp h.2
  simp only [nameAmong, kindAmong_eq (hn.sublist (hk.map _)) hs hsource ht htarget,
    kindAmong_eq hn (hk.subset hs) hsource (hk.subset ht) htarget]

theorem map_nameAmong_sublist (hn : (nodes.map (·.id)).Nodup) (edges : List EdgeEntry) :
    (resolved kept edges).map (nameAmong kept) =
      between (kept.map (·.id)) ((resolved nodes edges).map (nameAmong nodes)) := by
  have hsame : (resolved kept edges).map (nameAmong kept) =
      (resolved kept edges).map (nameAmong nodes) :=
    List.map_congr_left fun raw hraw =>
      nameAmong_sublist hk hn (of_decide_eq_true (List.mem_filter.mp hraw).2)
  rw [hsame, resolved_sublist hk, between, List.filter_map]
  rfl

/-- Fewer nodes make no id repeat. -/
theorem exists_build_sublist {edges : List EdgeEntry} {g : Graph}
    (h : (build nodes edges).result = .ok g) : ∃ g', (build kept edges).result = .ok g' := by
  obtain ⟨hn, he, -⟩ := build_ok_iff.mp h
  have hsub : (resolved kept edges).Sublist (resolved nodes edges) :=
    resolved_sublist hk edges ▸ List.filter_sublist
  exact ⟨_, build_ok_iff.mpr ⟨hn.sublist (hk.map _), he.sublist (hsub.map _), rfl⟩⟩

end Entries

/-! ### Highlights -/

section Highlights

variable {ids kept : List NodeId} {names : List NamedEdge}

theorem aroundNode_between {id : NodeId} (hi : id ∈ ids) (hid : id ∈ kept) :
    aroundNode kept (between kept names) id = {n ∈ aroundNode ids names id | n ∈ kept} := by
  ext m
  simp only [aroundNode, Set.mem_ofPred_eq, mem_between]
  constructor
  · rintro (⟨-, rfl⟩ | ⟨n, ⟨hmem, hs, ht⟩, hjoins⟩)
    · exact ⟨.inl ⟨hi, rfl⟩, hid⟩
    · refine ⟨.inr ⟨n, hmem, hjoins⟩, ?_⟩
      rcases hjoins with ⟨-, rfl⟩ | ⟨rfl, -⟩
      · exact ht
      · exact hs
  · rintro ⟨⟨-, rfl⟩ | ⟨n, hmem, hjoins⟩, hm⟩
    · exact .inl ⟨hid, rfl⟩
    · refine .inr ⟨n, ⟨hmem, ?_⟩, hjoins⟩
      rcases hjoins with ⟨rfl, rfl⟩ | ⟨rfl, rfl⟩
      · exact ⟨hid, hm⟩
      · exact ⟨hm, hid⟩

theorem Sound.edgesAt_between {g : Graph} (hg : g.Sound) (hn : g.Named names) (id : NodeId) :
    edgesAt (between kept names) id =
      {x ∈ edgesAt names id | ∃ e ∈ g.edges, e.id = x ∧ g.endsIn kept e} := by
  ext x
  simp only [edgesAt, Set.mem_ofPred_eq, mem_between]
  constructor
  · rintro ⟨n, ⟨hmem, hends⟩, ht, rfl⟩
    obtain ⟨e, he, hname⟩ := hn.mem.mp hmem
    obtain ⟨-, -, hid, -⟩ := name?_eq_some.mp hname
    exact ⟨⟨n, hmem, ht, rfl⟩, e, he, hid, by simpa [endsIn, hname] using hends⟩
  · rintro ⟨⟨n, hmem, ht, rfl⟩, e, he, hid, hends⟩
    -- The edge that has both its ends is the one at the node, since they have one id.
    obtain ⟨i, hi⟩ := List.getElem?_of_mem he
    have hname : g.name? e = some n :=
      hg.name?_of_id hn hmem (hg.edgeIdx?_eq_some.mpr ⟨e, hi, hid⟩) hi
    exact ⟨n, ⟨hmem, by simpa [endsIn, hname] using hends⟩, ht, rfl⟩

end Highlights

/-- The graph `g'` is the part of `g` between some nodes: its nodes are these, its edges are by ids the
edges between them, in order, and what stands out for one of them is what stands out for it in `g`, less
the nodes that are left out and the edges that end there. -/
structure Induces (g : Graph) (kept : List NodeEntry) (g' : Graph) : Prop where
  nodes : g'.nodes = kept.map NodeEntry.node
  edges : g'.edges.map g'.name? = (g.edges.filter (g.endsIn (kept.map (·.id)))).map g.name?
  nodeHighlight : ∀ n ∈ kept, ∃ nodes edges, g.Shows (g.nodeHighlight n.id) nodes edges ∧
    g'.Shows (g'.nodeHighlight n.id) {m ∈ nodes | m ∈ kept.map (·.id)}
      {x ∈ edges | ∃ e ∈ g.edges, e.id = x ∧ g.endsIn (kept.map (·.id)) e}

/-- Where all nodes have a graph, a part of them has one as well, and it is the part of that graph between
them. -/
theorem build_sublist {nodes kept : List NodeEntry} {edges : List EdgeEntry} {g : Graph}
    (h : (build nodes edges).result = .ok g) (hk : kept.Sublist nodes) :
    ∃ g', (build kept edges).result = .ok g' ∧ g.Induces kept g' := by
  obtain ⟨g', h'⟩ := exists_build_sublist hk h
  have hg : g.Sound := .of_build h
  obtain ⟨hn, -, hgraph⟩ := build_ok_iff.mp h
  obtain ⟨-, -, hgraph'⟩ := build_ok_iff.mp h'
  have hnodes : g.nodes = nodes.map NodeEntry.node := congrArg Graph.nodes hgraph
  have hnodes' : g'.nodes = kept.map NodeEntry.node := congrArg Graph.nodes hgraph'
  have hnamed := named_of_build h
  have hnamed' := named_of_build h'
  rw [map_nameAmong_sublist hk hn] at hnamed'
  refine ⟨g', h', hnodes', Eq.trans hnamed' (hnamed.filter_endsIn _).symm, fun n hmem => ?_⟩
  have hid : n.id ∈ kept.map (·.id) := List.mem_map_of_mem hmem
  have hids : g.nodes.map (·.id) = nodes.map (·.id) := by
    simp [hnodes, NodeEntry.node, Function.comp_def]
  have hids' : g'.nodes.map (·.id) = kept.map (·.id) := by
    simp [hnodes', NodeEntry.node, Function.comp_def]
  refine ⟨_, _, hg.shows_nodeHighlight hnamed n.id, ?_⟩
  rw [hids, ← aroundNode_between ((hk.map _).subset hid) hid, ← hg.edgesAt_between hnamed, ← hids']
  exact (Sound.of_build h').shows_nodeHighlight (hids' ▸ hnamed') n.id

/-- A host that is left out takes an edge along, which makes place for those behind it. -/
theorem build_sublist_without_host : ∃ nodes kept edges g g', (build nodes edges).result = .ok g ∧
    kept.Sublist nodes ∧ (build kept edges).result = .ok g' ∧
      g.edges.map (·.id.text) = ["loop", "s", "t"] ∧ g.nodeHighlight ⟨"a"⟩ = ⟨[0, 1, 2], [0, 1, 2]⟩ ∧
      g'.edges.map (·.id.text) = ["loop", "t"] ∧ g'.nodeHighlight ⟨"a"⟩ = ⟨[0, 1], [0, 1]⟩ ∧
      g.Induces kept g' := by
  let a : NodeEntry := ⟨⟨"a"⟩, .interface, {}⟩
  let h : NodeEntry := ⟨⟨"h"⟩, .host, {}⟩
  let b : NodeEntry := ⟨⟨"b"⟩, .interface, {}⟩
  let edges : List EdgeEntry :=
    [⟨⟨"loop"⟩, a.id, a.id, none, {}⟩, ⟨⟨"s"⟩, h.id, a.id, none, {}⟩, ⟨⟨"t"⟩, a.id, b.id, none, {}⟩]
  have hg : (build [a, h, b] edges).result = .ok _ := rfl
  have hk : [a, b].Sublist [a, h, b] := ((List.Sublist.refl [b]).cons h).cons_cons a
  have hg' : (build [a, b] edges).result = .ok _ := rfl
  obtain ⟨g', hbuilt, hinduces⟩ := build_sublist hg hk
  obtain rfl := Except.ok.inj (hg'.symm.trans hbuilt)
  exact ⟨_, _, edges, _, _, hg, hk, hg', rfl, rfl, rfl, rfl, hinduces⟩

end TunnelMap.Graph
