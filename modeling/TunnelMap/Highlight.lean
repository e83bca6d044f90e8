import TunnelMap.Graph.Basic

/-! What stands out while the pointer rests on a node or an edge. Sets of places are kept as
lists in increasing order, so equal sets are equal lists. -/

namespace TunnelMap

/-- Puts a place into a set of places. -/
def insertIdx (i : Nat) : List Nat → List Nat
  | [] => [i]
  | j :: js => if i < j then i :: j :: js else if i = j then j :: js else j :: insertIdx i js

/-- The places of a list, as a set. -/
def idxSet (is : List Nat) : List Nat := is.foldr insertIdx []

structure Highlight where
  nodes : List NodeIdx
  edges : List EdgeIdx
  deriving DecidableEq, Repr

namespace Highlight

/-- Nothing stands out. -/
def none : Highlight := ⟨[], []⟩

def isEmpty (h : Highlight) : Bool := h.nodes.isEmpty && h.edges.isEmpty

def hasNode (h : Highlight) (i : NodeIdx) : Bool := h.nodes.contains i

def hasEdge (h : Highlight) (i : EdgeIdx) : Bool := h.edges.contains i

end Highlight

namespace Graph

/-- A node, its neighbors and the edges to them. -/
def nodeHighlight (g : Graph) (id : NodeId) : Highlight :=
  match g.nodeIdx? id with
  | some i => ⟨idxSet (i :: g.neighbors i), idxSet (g.incident i)⟩
  | none => .none

/-- An edge and its two ends. -/
def edgeHighlight (g : Graph) (id : EdgeId) : Highlight :=
  match g.edgeIdx? id with
  | some i =>
    match g.edge? i with
    | some e => ⟨idxSet [e.source, e.target], [i]⟩
    | none => .none
  | none => .none

end Graph

end TunnelMap
