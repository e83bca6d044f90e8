import Mathlib.Tactic.SplitIfs
import TunnelMap.Graph.Build
import TunnelMap.Hover

/-! What is left of snapshots and graphs without what is only there to be shown: names, addresses,
address ranges, keepalives, and all that was not understood. A build takes entries by their ids and
looks at the kinds and ends; it carries the rest along. So to build what is left of a snapshot is to
build the snapshot and to keep what is left of its graph, with the same faults and notices. What a
graph finds by an id, and what stands out in it, does not depend on the rest either. -/

namespace TunnelMap

def NodeEntry.bare (raw : NodeEntry) : NodeEntry := { raw with attrs := {} }

def EdgeEntry.bare (raw : EdgeEntry) : EdgeEntry := { raw with attrs := {} }

def Snapshot.bare (s : Snapshot) : Snapshot := ⟨s.nodes.map .bare, s.edges.map .bare⟩

def Node.bare (n : Node) : Node := { n with attrs := {} }

def Edge.bare (e : Edge) : Edge := { e with attrs := {} }

def Graph.bare (g : Graph) : Graph :=
  { g with nodes := g.nodes.map .bare, edges := g.edges.map .bare }

namespace Roll

variable {κ α β : Type}

/-- A roll with its entries changed in their places. -/
def map (f : α → β) (r : Roll κ α) : Roll κ β := ⟨r.items.map f, r.places⟩

theorem map_add (f : α → β) (r : Roll κ α) (id : κ) (x : α) :
    (r.add id x).map f = (r.map f).add id (f x) := by
  simp [map, add]

end Roll

theorem Adjacency.ofEdges_bare (nodes : Nat) (edges : List Edge) :
    ofEdges nodes (edges.map .bare) = ofEdges nodes edges := by
  rw [ofEdges, List.zipIdx_map, List.foldl_map]
  rfl

namespace Graph

/-! ### Builds -/

def Taken.bare (t : Taken) : Taken := { t with edges := t.edges.map .bare }

theorem Taken.add_bare (t : Taken) (raw : EdgeEntry) (source target : Node × NodeIdx) :
    t.bare.add raw.bare (source.1.bare, source.2) (target.1.bare, target.2) =
      (t.add raw source target).bare := by
  simp only [Taken.add, Taken.bare, Roll.map_add]
  rfl

theorem takeNodes_bare (raws : List NodeEntry) (nodes : Roll NodeId Node) :
    takeNodes (raws.map .bare) (nodes.map .bare) = (takeNodes raws nodes).map (Roll.map .bare) := by
  induction raws generalizing nodes with
  | nil => rfl
  | cons raw raws ih =>
    rw [List.map_cons, takeNodes, takeNodes]
    change (if (nodes.place? raw.id).isSome then _ else _) = _
    split_ifs
    · rfl
    · rw [← ih, Roll.map_add]
      rfl

theorem end?_bare (nodes : Roll NodeId Node) (id : NodeId) :
    Graph.end? (nodes.map .bare) id = (end? nodes id).map fun e => (e.1.bare, e.2) := by
  change (nodes.place? id).bind (fun i => ((nodes.items.map Node.bare)[i]?).bind _) = _
  unfold end?
  cases nodes.place? id with
  | none => rfl
  | some i =>
    simp only [Option.bind_some, List.getElem?_map, Option.bind_eq_bind, Option.pure_def]
    cases nodes.items[i]? with
    | none => rfl
    | some n => rfl

theorem takeEdges_bare (nodes : Roll NodeId Node) (raws : List EdgeEntry) (t : Taken) :
    takeEdges (nodes.map .bare) (raws.map .bare) t.bare =
      ((takeEdges nodes raws t).1.bare, (takeEdges nodes raws t).2) := by
  induction raws generalizing t with
  | nil => rfl
  | cons raw raws ih =>
    have hadd := t.add_bare raw
    have hseen : t.bare.edges.place? raw.id = t.edges.place? raw.id := rfl
    rw [List.map_cons, takeEdges, takeEdges]
    simp only [EdgeEntry.bare, end?_bare] at hadd ⊢
    cases end? nodes raw.source with
    | none => exact ih t.drop
    | some source =>
      cases end? nodes raw.target with
      | none => exact ih t.drop
      | some target =>
        simp only [Option.map_some, hadd, hseen]
        split_ifs
        · rfl
        · exact ih (t.add raw source target)

theorem ofRolls_bare (nodes : Roll NodeId Node) (edges : Roll EdgeId Edge) :
    ofRolls (nodes.map .bare) (edges.map .bare) = (ofRolls nodes edges).bare := by
  simp only [ofRolls, Roll.map, List.length_map, Adjacency.ofEdges_bare]
  rfl

end Graph

/-- To build what is left of a snapshot is to build it and to keep what is left of its graph. -/
theorem Snapshot.build_bare (s : Snapshot) :
    s.bare.build = ⟨s.build.notices, s.build.result.map .bare⟩ := by
  have hnodes : Graph.takeNodes (s.nodes.map .bare) .empty =
      (Graph.takeNodes s.nodes .empty).map (Roll.map .bare) := Graph.takeNodes_bare s.nodes .empty
  unfold build Graph.build bare
  rw [hnodes]
  cases Graph.takeNodes s.nodes .empty with
  | error e => rfl
  | ok nodes =>
    have hedges : Graph.takeEdges (nodes.map .bare) (s.edges.map .bare) ⟨.empty, 0, []⟩ = _ :=
      Graph.takeEdges_bare nodes s.edges ⟨.empty, 0, []⟩
    dsimp only [Except.map]
    rw [hedges]
    rcases Graph.takeEdges nodes s.edges ⟨.empty, 0, []⟩ with ⟨t, _ | e⟩
    · dsimp only [Graph.Taken.bare]
      rw [Graph.ofRolls_bare]
    · rfl

namespace Graph

/-! ### What a graph finds -/

@[simp] theorem length_nodes_bare (g : Graph) : g.bare.nodes.length = g.nodes.length :=
  List.length_map _

@[simp] theorem length_edges_bare (g : Graph) : g.bare.edges.length = g.edges.length :=
  List.length_map _

@[simp] theorem node?_bare (g : Graph) (i : NodeIdx) : g.bare.node? i = (g.node? i).map .bare :=
  List.getElem?_map

@[simp] theorem edge?_bare (g : Graph) (i : EdgeIdx) : g.bare.edge? i = (g.edge? i).map .bare :=
  List.getElem?_map

theorem edgeIdx?_bare (g : Graph) (id : EdgeId) : g.bare.edgeIdx? id = g.edgeIdx? id := rfl

@[simp] theorem resolve_bare (g : Graph) (t : Target) : g.bare.resolve t = g.resolve t := by
  cases t with
  | edge id =>
    have hany : ((g.edgeIdx? id).bind g.bare.edge?).any Edge.isHoverable =
        ((g.edgeIdx? id).bind g.edge?).any Edge.isHoverable := by
      cases g.edgeIdx? id with
      | none => rfl
      | some i =>
        rw [Option.bind_some, edge?_bare, Option.any_map]
        rfl
    rw [resolve, edgeIdx?_bare, hany]
    rfl
  | _ => rfl

theorem edgeHighlight_bare (g : Graph) (id : EdgeId) :
    g.bare.edgeHighlight id = g.edgeHighlight id := by
  rw [edgeHighlight, edgeHighlight, edgeIdx?_bare]
  cases g.edgeIdx? id with
  | none => rfl
  | some i =>
    dsimp only
    rw [edge?_bare]
    cases g.edge? i <;> rfl

@[simp] theorem highlight_bare (g : Graph) (t : Target) : g.bare.highlight t = g.highlight t := by
  cases t with
  | edge id => exact g.edgeHighlight_bare id
  | _ => rfl

@[simp] theorem click_bare (g : Graph) (t : Target) : g.bare.click t = g.click t := by
  cases t <;> rfl

end Graph

namespace Hover

@[simp] theorem move_bare (h : Hover) (g : Graph) (picked : Target) :
    h.move g.bare picked = h.move g picked := by
  simp [move, turn]

@[simp] theorem leave_bare (h : Hover) (g : Graph) : h.leave g.bare = h.leave g := by
  simp [leave, turn]

@[simp] theorem rebind_bare (h : Hover) (g : Graph) : h.rebind g.bare = h.rebind g := by
  simp [rebind, turn]

end Hover

end TunnelMap
