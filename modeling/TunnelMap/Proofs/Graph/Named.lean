import Mathlib.Data.Set.Basic
import TunnelMap.Proofs.Graph.Incidence
import TunnelMap.Proofs.Hover.Turn

/-! Graphs by their ids. Which place a node or an edge has depends on the order of the snapshot and on
the edges that were dropped before it; its id does not. Read by ids, the edges of a graph are the entries
whose ends are there, and what stands out for a node or an edge can be told from the ids of the nodes
and of the ends of the edges alone. -/

namespace TunnelMap

/-- An edge by the ids of its ends. -/
structure NamedEdge where
  id : EdgeId
  source : NodeId
  target : NodeId
  kind : EdgeKind
  attrs : EdgeAttrs

namespace NamedEdge

/-- A node is an end of the edge. -/
def Touches (e : NamedEdge) (n : NodeId) : Prop := e.source = n ∨ e.target = n

/-- The edge has a node at one end and another, or the same, at the other end. -/
def Joins (e : NamedEdge) (n m : NodeId) : Prop :=
  (e.source = n ∧ e.target = m) ∨ (e.source = m ∧ e.target = n)

theorem Joins.touches {e : NamedEdge} {n m : NodeId} (h : e.Joins n m) : e.Touches n := by
  rcases h with ⟨hs, -⟩ | ⟨-, ht⟩
  · exact .inl hs
  · exact .inr ht

end NamedEdge

namespace Graph

def nodeId? (g : Graph) (i : NodeIdx) : Option NodeId := (g.node? i).map (·.id)

def edgeId? (g : Graph) (i : EdgeIdx) : Option EdgeId := (g.edge? i).map (·.id)

/-- An edge with the ids of its ends for their places. -/
def name? (g : Graph) (e : Edge) : Option NamedEdge := do
  let source ← g.nodeId? e.source
  let target ← g.nodeId? e.target
  return ⟨e.id, source, target, e.kind, e.attrs⟩

/-- The edges of the graph are the given ones, in order. -/
def Named (g : Graph) (names : List NamedEdge) : Prop := g.edges.map g.name? = names.map some

/-- What stands out is the given nodes and edges: each of its places has one of the ids, and each id has
one of the places. -/
structure Shows (g : Graph) (h : Highlight) (nodes : Set NodeId) (edges : Set EdgeId) : Prop where
  mem_nodes : ∀ x, x ∈ h.nodes.map g.nodeId? ↔ ∃ id ∈ nodes, x = some id
  mem_edges : ∀ x, x ∈ h.edges.map g.edgeId? ↔ ∃ id ∈ edges, x = some id

/-! ### Names -/

theorem name?_eq_some {g : Graph} {e : Edge} {n : NamedEdge} :
    g.name? e = some n ↔ g.nodeId? e.source = some n.source ∧ g.nodeId? e.target = some n.target ∧
      e.id = n.id ∧ e.kind = n.kind ∧ e.attrs = n.attrs := by
  simp only [name?, Option.bind_eq_bind, Option.bind_eq_some_iff, Option.pure_def, Option.some.injEq]
  constructor
  · rintro ⟨s, hs, t, ht, rfl⟩
    exact ⟨hs, ht, rfl, rfl, rfl⟩
  · rintro ⟨hs, ht, hid, hkind, hattrs⟩
    exact ⟨n.source, hs, n.target, ht, by rw [hid, hkind, hattrs]⟩

theorem Named.mem {g : Graph} {names : List NamedEdge} (h : g.Named names) {n : NamedEdge} :
    n ∈ names ↔ ∃ e ∈ g.edges, g.name? e = some n := by
  have hmem : some n ∈ g.edges.map g.name? ↔ some n ∈ names.map some := by rw [h]
  rw [List.mem_map, List.mem_map] at hmem
  simpa using hmem.symm

theorem Named.exists_name {g : Graph} {names : List NamedEdge} (h : g.Named names) {e : Edge}
    (he : e ∈ g.edges) : ∃ n ∈ names, g.name? e = some n := by
  have hmem : g.name? e ∈ g.edges.map g.name? := List.mem_map_of_mem he
  rw [h] at hmem
  obtain ⟨n, hn, hname⟩ := List.mem_map.mp hmem
  exact ⟨n, hn, hname.symm⟩

/-- The node across an edge has an id, since both ends have. -/
theorem exists_across {g : Graph} {e : Edge} {n : NamedEdge} (he : g.name? e = some n)
    (i : NodeIdx) : ∃ m, g.nodeId? (e.opposite i) = some m := by
  obtain ⟨hs, ht, -⟩ := name?_eq_some.mp he
  unfold Edge.opposite
  split_ifs
  · exact ⟨_, ht⟩
  · exact ⟨_, hs⟩

/-- The kind of an entry among nodes whose ids are told apart. -/
def kindAmong (nodes : List NodeEntry) (raw : EdgeEntry) : EdgeKind :=
  if ∃ n ∈ nodes, n.kind = .host ∧ (n.id = raw.source ∨ n.id = raw.target) then .spoke
  else raw.kind.getD .peer

/-- The edge that an entry comes to among nodes. -/
def nameAmong (nodes : List NodeEntry) (raw : EdgeEntry) : NamedEdge :=
  ⟨raw.id, raw.source, raw.target, kindAmong nodes raw, raw.attrs⟩

/-- The kind of an entry goes by the nodes at its ends. -/
theorem kindAmong_eq {nodes : List NodeEntry} (hn : (nodes.map (·.id)).Nodup) {raw : EdgeEntry}
    {s t : NodeEntry} (hs : s ∈ nodes) (hsource : s.id = raw.source) (ht : t ∈ nodes)
    (htarget : t.id = raw.target) : kindAmong nodes raw =
      if s.kind = .host ∨ t.kind = .host then .spoke else raw.kind.getD .peer := by
  have hhost : (∃ n ∈ nodes, n.kind = .host ∧ (n.id = raw.source ∨ n.id = raw.target)) ↔
      s.kind = .host ∨ t.kind = .host := by
    constructor
    · rintro ⟨n, hmem, hk, hid | hid⟩
      · obtain rfl : n = s := List.inj_on_of_nodup_map hn hmem hs (hid.trans hsource.symm)
        exact .inl hk
      · obtain rfl : n = t := List.inj_on_of_nodup_map hn hmem ht (hid.trans htarget.symm)
        exact .inr hk
    · rintro (hk | hk)
      · exact ⟨s, hs, hk, .inl hsource⟩
      · exact ⟨t, ht, hk, .inr htarget⟩
  simp only [kindAmong, hhost]

theorem kind_of_settles {nodes : List NodeEntry} {raw : EdgeEntry} {e : Edge}
    (hn : (nodes.map (·.id)).Nodup) (h : Settles nodes raw e) : e.kind = kindAmong nodes raw := by
  obtain ⟨s, t, hs, hsource, ht, htarget, hkind⟩ := h.ends
  rw [hkind, kindAmong_eq hn (List.mem_of_getElem? hs) hsource (List.mem_of_getElem? ht) htarget]

theorem name?_of_settles {nodes : List NodeEntry} {raw : EdgeEntry} {e : Edge} {g : Graph}
    (hg : g.nodes = nodes.map NodeEntry.node) (hn : (nodes.map (·.id)).Nodup)
    (h : Settles nodes raw e) : g.name? e = some (nameAmong nodes raw) := by
  obtain ⟨s, t, hs, hsource, ht, htarget, -⟩ := h.ends
  refine name?_eq_some.mpr ⟨?_, ?_, h.id, kind_of_settles hn h, h.attrs⟩
  · simp [nodeId?, node?, hg, hs, NodeEntry.node, nameAmong, hsource]
  · simp [nodeId?, node?, hg, ht, NodeEntry.node, nameAmong, htarget]

/-- By their ids, the edges that a build comes to are the entries whose ends are there. -/
theorem named_of_build {nodes : List NodeEntry} {edges : List EdgeEntry} {g : Graph}
    (h : (build nodes edges).result = .ok g) :
    g.Named ((resolved nodes edges).map (nameAmong nodes)) := by
  obtain ⟨hn, -, rfl⟩ := build_ok_iff.mp h
  have hs := forall₂_settles nodes edges
  rw [Named, List.map_map, ← List.forall₂_eq_eq_eq, List.forall₂_map_left_iff,
    List.forall₂_map_right_iff]
  exact hs.flip.imp fun e raw hsettles => name?_of_settles rfl hn hsettles

/-! ### Highlights -/

/-- The nodes that stand out for a node: itself, if it is there, and those that an edge joins it to. -/
def aroundNode (ids : List NodeId) (names : List NamedEdge) (id : NodeId) : Set NodeId :=
  {n | (id ∈ ids ∧ n = id) ∨ ∃ e ∈ names, e.Joins id n}

/-- The edges that stand out for a node. -/
def edgesAt (names : List NamedEdge) (id : NodeId) : Set EdgeId :=
  {x | ∃ e ∈ names, e.Touches id ∧ e.id = x}

/-- The nodes that stand out for an edge. -/
def endsOf (names : List NamedEdge) (id : EdgeId) : Set NodeId :=
  {n | ∃ e ∈ names, e.id = id ∧ e.Touches n}

/-- The edge that stands out for an edge: itself, if it is there. -/
def onlyEdge (names : List NamedEdge) (id : EdgeId) : Set EdgeId :=
  {x | ∃ e ∈ names, e.id = id ∧ e.id = x}

namespace Sound

variable {g : Graph} (hg : g.Sound)

include hg

theorem nodeId?_eq_some {i : NodeIdx} {id : NodeId} :
    g.nodeId? i = some id ↔ g.nodeIdx? id = some i := by
  rw [nodeId?, Option.map_eq_some_iff, hg.nodeIdx?_eq_some]

theorem edgeId?_eq_some {i : EdgeIdx} {id : EdgeId} :
    g.edgeId? i = some id ↔ g.edgeIdx? id = some i := by
  rw [edgeId?, Option.map_eq_some_iff, hg.edgeIdx?_eq_some]

/-- No two places have one id. -/
theorem nodeId?_inj {i j : NodeIdx} {id : NodeId} (hi : g.nodeId? i = some id)
    (hj : g.nodeId? j = some id) : i = j :=
  Option.some.inj ((hg.nodeId?_eq_some.mp hi).symm.trans (hg.nodeId?_eq_some.mp hj))

theorem mem_ids {id : NodeId} : id ∈ g.nodes.map (·.id) ↔ ∃ i, g.nodeIdx? id = some i := by
  simp only [hg.nodeIdx?_eq_some, List.mem_map]
  constructor
  · rintro ⟨n, hn, hid⟩
    obtain ⟨i, hi⟩ := List.getElem?_of_mem hn
    exact ⟨i, n, hi, hid⟩
  · rintro ⟨i, n, hi, hid⟩
    exact ⟨n, List.mem_of_getElem? hi, hid⟩

/-- A node is an end of an edge by its place just if it is by its id. -/
theorem touches_iff {e : Edge} {n : NamedEdge} (he : g.name? e = some n) {i : NodeIdx} {id : NodeId}
    (hi : g.nodeId? i = some id) : e.touches i ↔ n.Touches id := by
  obtain ⟨hs, ht, -⟩ := name?_eq_some.mp he
  have hsource : e.source = i ↔ n.source = id :=
    ⟨fun h => Option.some.inj (hs.symm.trans (h ▸ hi)), fun h => hg.nodeId?_inj hs (h ▸ hi)⟩
  have htarget : e.target = i ↔ n.target = id :=
    ⟨fun h => Option.some.inj (ht.symm.trans (h ▸ hi)), fun h => hg.nodeId?_inj ht (h ▸ hi)⟩
  rw [Edge.touches_iff, NamedEdge.Touches, hsource, htarget]

/-- The node across an edge has the id that the edge joins to. -/
theorem joins_iff {e : Edge} {n : NamedEdge} (he : g.name? e = some n) {i : NodeIdx} {id m : NodeId}
    (hi : g.nodeId? i = some id) :
    n.Joins id m ↔ e.touches i ∧ g.nodeId? (e.opposite i) = some m := by
  obtain ⟨hs, ht, -⟩ := name?_eq_some.mp he
  rw [hg.touches_iff he hi]
  by_cases hsource : e.source = i
  · have hid : n.source = id := Option.some.inj (hs.symm.trans (hsource ▸ hi))
    simp only [Edge.opposite, hsource, if_true, ht, Option.some.injEq, NamedEdge.Joins,
      NamedEdge.Touches, hid, true_and, true_or]
    exact or_iff_left_of_imp fun h => h.2.trans h.1
  · have hid : n.source ≠ id := fun h => hsource (hg.nodeId?_inj hs (h ▸ hi))
    simp only [Edge.opposite, hsource, if_false, hs, Option.some.injEq, NamedEdge.Joins,
      NamedEdge.Touches, hid, false_and, false_or]
    exact and_comm

theorem not_touches {id : NodeId} (hi : g.nodeIdx? id = none) {e : Edge} {n : NamedEdge}
    (he : g.name? e = some n) : ¬ n.Touches id := by
  obtain ⟨hs, ht, -⟩ := name?_eq_some.mp he
  rintro (rfl | rfl)
  · simp [hg.nodeId?_eq_some.mp hs] at hi
  · simp [hg.nodeId?_eq_some.mp ht] at hi

/-- What stands out for a node, by ids. -/
theorem shows_nodeHighlight {names : List NamedEdge} (hn : g.Named names) (id : NodeId) :
    g.Shows (g.nodeHighlight id) (aroundNode (g.nodes.map (·.id)) names id) (edgesAt names id) := by
  cases hi : g.nodeIdx? id with
  | none =>
    have hids : id ∉ g.nodes.map (·.id) := fun h => by
      obtain ⟨i, hi'⟩ := hg.mem_ids.mp h
      simp [hi] at hi'
    have haway : ∀ n ∈ names, ¬ n.Touches id := fun n hmem => by
      obtain ⟨e, -, he⟩ := hn.mem.mp hmem
      exact hg.not_touches hi he
    have hnone : g.nodeHighlight id = .none := by rw [nodeHighlight, hi]
    rw [hnone]
    refine ⟨fun x => ?_, fun x => ?_⟩
    · simp only [Highlight.none, List.map_nil, List.not_mem_nil, false_iff]
      rintro ⟨m, ⟨hid, -⟩ | ⟨n, hmem, hjoins⟩, -⟩
      · exact hids hid
      · exact haway n hmem hjoins.touches
    · simp only [Highlight.none, List.map_nil, List.not_mem_nil, false_iff]
      rintro ⟨-, ⟨n, hmem, ht, rfl⟩, -⟩
      exact haway n hmem ht
  | some i =>
    have hid : g.nodeId? i = some id := hg.nodeId?_eq_some.mpr hi
    rw [nodeHighlight_eq hi]
    refine ⟨fun x => ?_, fun x => ?_⟩
    · simp only [List.mem_map, mem_idxSet, List.mem_cons, hg.mem_neighbors]
      constructor
      · rintro ⟨j, rfl | ⟨e, he, ht, rfl⟩, rfl⟩
        · exact ⟨id, .inl ⟨hg.mem_ids.mpr ⟨j, hi⟩, rfl⟩, hid⟩
        · obtain ⟨n, hmem, hname⟩ := hn.exists_name he
          obtain ⟨m, hm⟩ := exists_across hname i
          exact ⟨m, .inr ⟨n, hmem, (hg.joins_iff hname hid).mpr ⟨ht, hm⟩⟩, hm⟩
      · rintro ⟨m, ⟨-, rfl⟩ | ⟨n, hmem, hjoins⟩, rfl⟩
        · exact ⟨i, .inl rfl, hid⟩
        · obtain ⟨e, he, hname⟩ := hn.mem.mp hmem
          obtain ⟨ht, hm⟩ := (hg.joins_iff hname hid).mp hjoins
          exact ⟨_, .inr ⟨e, he, ht, rfl⟩, hm⟩
    · simp only [List.mem_map, mem_idxSet, hg.mem_incident]
      constructor
      · rintro ⟨j, ⟨e, he, ht⟩, rfl⟩
        obtain ⟨n, hmem, hname⟩ := hn.exists_name (List.mem_of_getElem? he)
        obtain ⟨-, -, heid, -⟩ := name?_eq_some.mp hname
        refine ⟨n.id, ⟨n, hmem, (hg.touches_iff hname hid).mp ht, rfl⟩, ?_⟩
        rw [edgeId?, he, Option.map_some, heid]
      · rintro ⟨-, ⟨n, hmem, ht, rfl⟩, rfl⟩
        obtain ⟨e, he, hname⟩ := hn.mem.mp hmem
        obtain ⟨-, -, heid, -⟩ := name?_eq_some.mp hname
        obtain ⟨j, hj⟩ := List.getElem?_of_mem he
        refine ⟨j, ⟨e, hj, (hg.touches_iff hname hid).mpr ht⟩, ?_⟩
        rw [edgeId?, edge?, hj, Option.map_some, heid]

/-- An edge goes by the name that has its id. -/
theorem name?_of_id {names : List NamedEdge} (hn : g.Named names) {n : NamedEdge} (hmem : n ∈ names)
    {i : EdgeIdx} {e : Edge} (hi : g.edgeIdx? n.id = some i) (he : g.edge? i = some e) :
    g.name? e = some n := by
  obtain ⟨e', he', hname⟩ := hn.mem.mp hmem
  obtain ⟨-, -, hid, -⟩ := name?_eq_some.mp hname
  obtain ⟨j, hj⟩ := List.getElem?_of_mem he'
  obtain rfl : j = i := Option.some.inj ((hg.edgeIdx?_eq_some.mpr ⟨e', hj, hid⟩).symm.trans hi)
  obtain rfl : e' = e := Option.some.inj (hj.symm.trans he)
  exact hname

/-- What stands out for an edge, by ids. -/
theorem shows_edgeHighlight {names : List NamedEdge} (hn : g.Named names) (id : EdgeId) :
    g.Shows (g.edgeHighlight id) (endsOf names id) (onlyEdge names id) := by
  cases hi : g.edgeIdx? id with
  | none =>
    have hother : ∀ n ∈ names, n.id ≠ id := fun n hmem hid => by
      obtain ⟨e, he, hname⟩ := hn.mem.mp hmem
      obtain ⟨-, -, heid, -⟩ := name?_eq_some.mp hname
      obtain ⟨i, hi'⟩ := List.getElem?_of_mem he
      simp [hg.edgeIdx?_eq_some.mpr ⟨e, hi', heid.trans hid⟩] at hi
    have hnone : g.edgeHighlight id = .none := by rw [edgeHighlight, hi]
    rw [hnone]
    refine ⟨fun x => ?_, fun x => ?_⟩
    · simp only [Highlight.none, List.map_nil, List.not_mem_nil, false_iff]
      rintro ⟨-, ⟨n, hmem, hid, -⟩, -⟩
      exact hother n hmem hid
    · simp only [Highlight.none, List.map_nil, List.not_mem_nil, false_iff]
      rintro ⟨-, ⟨n, hmem, hid, -⟩, -⟩
      exact hother n hmem hid
  | some i =>
    obtain ⟨e, he, hid⟩ := hg.edgeIdx?_eq_some.mp hi
    obtain ⟨n, hmem, hname⟩ := hn.exists_name (List.mem_of_getElem? he)
    obtain ⟨hs, ht, heid, -⟩ := name?_eq_some.mp hname
    rw [edgeHighlight_eq hi he]
    refine ⟨fun x => ?_, fun x => ?_⟩
    · simp only [List.mem_map, mem_idxSet, List.mem_cons, List.not_mem_nil, or_false]
      constructor
      · rintro ⟨j, rfl | rfl, rfl⟩
        · exact ⟨n.source, ⟨n, hmem, heid.symm.trans hid, .inl rfl⟩, hs⟩
        · exact ⟨n.target, ⟨n, hmem, heid.symm.trans hid, .inr rfl⟩, ht⟩
      · rintro ⟨m, ⟨n', hmem', rfl, htouches⟩, rfl⟩
        obtain ⟨hs', ht', -⟩ := name?_eq_some.mp (hg.name?_of_id hn hmem' hi he)
        rcases htouches with rfl | rfl
        · exact ⟨e.source, .inl rfl, hs'⟩
        · exact ⟨e.target, .inr rfl, ht'⟩
    · have hedge : g.edgeId? i = some id := hg.edgeId?_eq_some.mpr hi
      simp only [List.map_cons, List.map_nil, List.mem_singleton, hedge]
      constructor
      · rintro rfl
        exact ⟨id, ⟨n, hmem, heid.symm.trans hid, heid.symm.trans hid⟩, rfl⟩
      · rintro ⟨-, ⟨n', -, rfl, rfl⟩, rfl⟩
        rfl

end Sound

end Graph

end TunnelMap
