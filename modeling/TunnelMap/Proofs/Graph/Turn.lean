import TunnelMap.Proofs.Graph.Incidence

/-! Edges that are turned around. A snapshot with some of its edges turned builds whenever it built
before, to the same graph with those edges turned: what an end is does not depend on the direction,
and neither does the kind of an edge. Each node keeps the edges that it has. -/

namespace TunnelMap

/-- The entry with its ends swapped, if it is to be turned. -/
def EdgeEntry.turn (p : EdgeId → Bool) (raw : EdgeEntry) : EdgeEntry :=
  if p raw.id then { raw with source := raw.target, target := raw.source } else raw

/-- The snapshot with some edges turned around. -/
def Snapshot.turn (p : EdgeId → Bool) (s : Snapshot) : Snapshot :=
  { s with edges := s.edges.map (EdgeEntry.turn p) }

/-- The edge with its ends swapped, if it is to be turned. -/
def Edge.turn (p : EdgeId → Bool) (e : Edge) : Edge :=
  if p e.id then { e with source := e.target, target := e.source } else e

variable {p : EdgeId → Bool}

@[simp] theorem EdgeEntry.id_turn (raw : EdgeEntry) : (raw.turn p).id = raw.id := by
  unfold turn
  split_ifs <;> rfl

@[simp] theorem Edge.touches_turn (e : Edge) (n : NodeIdx) : (e.turn p).touches n = e.touches n := by
  unfold turn touches
  split_ifs
  · exact Bool.or_comm ..
  · rfl

namespace Graph

/-- The graph with some edges turned around. -/
def turn (p : EdgeId → Bool) (g : Graph) : Graph := ofParts g.nodes (g.edges.map (Edge.turn p))

theorem resolves_turn {nodes : List NodeEntry} {raw : EdgeEntry} :
    Resolves nodes (raw.turn p) ↔ Resolves nodes raw := by
  unfold EdgeEntry.turn
  split_ifs
  · exact and_comm
  · rfl

theorem settleKind_comm (a b : NodeKind) (explicit : Option EdgeKind) :
    settleKind a b explicit = settleKind b a explicit := by
  cases a <;> cases b <;> rfl

theorem edgeOf?_turn (nodes : List Node) (raw : EdgeEntry) :
    edgeOf? nodes (raw.turn p) = (edgeOf? nodes raw).map (Edge.turn p) := by
  cases hs : endOf? nodes raw.source <;> cases ht : endOf? nodes raw.target <;>
    by_cases hp : p raw.id <;>
    simp [edgeOf?, EdgeEntry.turn, Edge.turn, hs, ht, hp, settleKind_comm]

theorem resolved_turn (nodes : List NodeEntry) (edges : List EdgeEntry) :
    (resolved nodes (edges.map (EdgeEntry.turn p))).map (·.id) = (resolved nodes edges).map (·.id) := by
  simp only [resolved, List.filter_map, List.map_map, Function.comp_def, resolves_turn,
    EdgeEntry.id_turn]

theorem build_turn {s : Snapshot} {g : Graph} (h : s.build.result = .ok g) (p : EdgeId → Bool) :
    (s.turn p).build.result = .ok (g.turn p) := by
  obtain ⟨hnodes, hedges, rfl⟩ := build_ok_iff.mp h
  refine build_ok_iff.mpr ⟨hnodes, ?_, ?_⟩
  · rwa [Snapshot.turn, resolved_turn]
  · rw [Snapshot.turn, List.filterMap_map]
    simp only [turn, ofParts, List.map_filterMap, Function.comp_def, edgeOf?_turn]

theorem OfSnapshot.turn {g : Graph} (h : g.OfSnapshot) (p : EdgeId → Bool) : (g.turn p).OfSnapshot :=
  let ⟨s, hs⟩ := h
  ⟨s.turn p, build_turn hs p⟩

/-- Each node keeps the edges that it has. -/
theorem OfSnapshot.incident_turn {g : Graph} (h : g.OfSnapshot) (p : EdgeId → Bool) (n : NodeIdx) :
    (g.turn p).incident n = g.incident n := by
  rw [(h.turn p).sound.incident_eq, h.sound.incident_eq]
  have hzip : (g.turn p).edges.zipIdx = g.edges.zipIdx.map (Prod.map (Edge.turn p) id) :=
    List.zipIdx_map
  have hnodes : (g.turn p).nodes = g.nodes := rfl
  simp only [hzip, hnodes, List.filter_map, List.map_map, Function.comp_def, Prod.map_fst,
    Prod.map_snd, Edge.touches_turn, id]

end Graph

end TunnelMap
