import TunnelMap.Graph.Basic
import TunnelMap.Notice

/-! Building a graph from a snapshot. Ids must not repeat. An edge with an end outside the
snapshot is dropped before its id counts, since a snapshot may show only a part of the nodes.
An edge at a host is an attachment, whatever the snapshot says. -/

namespace TunnelMap

namespace Graph

/-- The nodes of a graph, or the first id that was there before. -/
def takeNodes : List NodeEntry → Roll NodeId Node → Except BuildError (Roll NodeId Node)
  | [], nodes => .ok nodes
  | raw :: rest, nodes =>
    if (nodes.place? raw.id).isSome then .error (.duplicateNode raw.id)
    else takeNodes rest (nodes.add raw.id ⟨raw.id, raw.kind, raw.attrs⟩)

/-- A node by its id, with its place. -/
def end? (nodes : Roll NodeId Node) (id : NodeId) : Option (Node × NodeIdx) := do
  let i ← nodes.place? id
  let n ← nodes.items[i]?
  return (n, i)

/-- The edges so far, how many were dropped, and what there is to say about them. -/
structure Taken where
  edges : Roll EdgeId Edge
  dropped : Nat
  notices : List Notice

/-- The kind of an edge between two nodes, and whether an explicit kind had to give way. -/
def settleKind (a b : NodeKind) (explicit : Option EdgeKind) : EdgeKind × Bool :=
  match EdgeKind.between a b, explicit with
  | .spoke, some .peer => (.spoke, true)
  | .spoke, _ => (.spoke, false)
  | .peer, explicit => (explicit.getD .peer, false)

namespace Taken

def drop (t : Taken) : Taken := { t with dropped := t.dropped + 1 }

def add (t : Taken) (raw : EdgeEntry) (source target : Node × NodeIdx) : Taken :=
  let (kind, overruled) := settleKind source.1.kind target.1.kind raw.kind
  { t with
    edges := t.edges.add raw.id ⟨raw.id, source.2, target.2, kind, raw.attrs⟩
    notices := if overruled then t.notices ++ [.peerIgnored raw.id] else t.notices }

end Taken

/-- Takes edges until one has the id of an edge that was taken before. -/
def takeEdges (nodes : Roll NodeId Node) : List EdgeEntry → Taken → Taken × Option BuildError
  | [], t => (t, none)
  | raw :: rest, t =>
    match end? nodes raw.source, end? nodes raw.target with
    | some source, some target =>
      if (t.edges.place? raw.id).isSome then (t, some (.duplicateEdge raw.id))
      else takeEdges nodes rest (t.add raw source target)
    | _, _ => takeEdges nodes rest t.drop

/-- What a build says and what it yields. -/
structure Built where
  notices : List Notice
  result : Except BuildError Graph

def build (nodes : List NodeEntry) (edges : List EdgeEntry) : Built :=
  match takeNodes nodes .empty with
  | .error e => ⟨[], .error e⟩
  | .ok nodes =>
    match takeEdges nodes edges ⟨.empty, 0, []⟩ with
    | (t, some e) => ⟨t.notices, .error e⟩
    | (t, none) =>
      ⟨t.notices ++ (if t.dropped = 0 then [] else [.edgesDropped t.dropped]),
        .ok (ofRolls nodes t.edges)⟩

end Graph

/-- The graph of a snapshot. -/
def Snapshot.build (s : Snapshot) : Graph.Built := Graph.build s.nodes s.edges

end TunnelMap
