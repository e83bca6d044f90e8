import TunnelMap.Snapshot.Basic

/-! The graph of a snapshot: nodes and edges by their places, tables that find a place by an id,
and for each node the edges that touch it. A place is only meaningful in the graph that it was
taken from. -/

namespace TunnelMap

/-- The place of a node in its graph. -/
abbrev NodeIdx := Nat

/-- The place of an edge in its graph. -/
abbrev EdgeIdx := Nat

structure Node where
  id : NodeId
  kind : NodeKind
  attrs : NodeAttrs

/-- An edge by the places of its ends. -/
structure Edge where
  id : EdgeId
  source : NodeIdx
  target : NodeIdx
  kind : EdgeKind
  attrs : EdgeAttrs

namespace Edge

/-- The end across from a node; of a loop it is the node itself. -/
def opposite (e : Edge) (n : NodeIdx) : NodeIdx := if e.source = n then e.target else e.source

/-- Only tunnels answer to the pointer. -/
def isHoverable (e : Edge) : Bool :=
  match e.kind with
  | .peer => true
  | .spoke => false

end Edge

/-- The edges at each node, and across from the node the nodes at their other ends. Parallel
edges are listed each for itself. -/
structure Adjacency where
  incident : List (List EdgeIdx)
  neighbors : List (List NodeIdx)
  deriving DecidableEq, Repr

namespace Adjacency

def empty (nodes : Nat) : Adjacency := ⟨List.replicate nodes [], List.replicate nodes []⟩

/-- Lists an edge at one of its ends. -/
def attach (a : Adjacency) (n : NodeIdx) (e : EdgeIdx) (other : NodeIdx) : Adjacency :=
  ⟨a.incident.modify n (· ++ [e]), a.neighbors.modify n (· ++ [other])⟩

/-- Lists an edge at its ends: at both, or once if it is a loop. -/
def add (a : Adjacency) (i : EdgeIdx) (e : Edge) : Adjacency :=
  let a := a.attach e.source i e.target
  if e.source = e.target then a else a.attach e.target i e.source

def ofEdges (nodes : Nat) (edges : List Edge) : Adjacency :=
  edges.zipIdx.foldl (fun a (e, i) => a.add i e) (empty nodes)

end Adjacency

/-- Entries in the order in which they are taken, and a table of the places of their ids. -/
structure Roll (κ α : Type) where
  items : List α
  places : List (κ × Nat)

namespace Roll

variable {κ α : Type}

def empty : Roll κ α := ⟨[], []⟩

/-- Takes an entry; its place is the next one. -/
def add (r : Roll κ α) (id : κ) (x : α) : Roll κ α :=
  ⟨r.items ++ [x], r.places ++ [(id, r.items.length)]⟩

/-- The place that the table has for an id. -/
def place? [DecidableEq κ] (r : Roll κ α) (id : κ) : Option Nat := r.places.lookup id

/-- The roll of entries that bring their ids along. -/
def ofList (key : α → κ) (xs : List α) : Roll κ α := ⟨xs, xs.zipIdx.map fun (x, i) => (key x, i)⟩

end Roll

structure Graph where
  nodes : List Node
  edges : List Edge
  nodePlaces : List (NodeId × NodeIdx)
  edgePlaces : List (EdgeId × EdgeIdx)
  adjacency : Adjacency

namespace Graph

def ofRolls (nodes : Roll NodeId Node) (edges : Roll EdgeId Edge) : Graph where
  nodes := nodes.items
  edges := edges.items
  nodePlaces := nodes.places
  edgePlaces := edges.places
  adjacency := .ofEdges nodes.items.length edges.items

def ofParts (nodes : List Node) (edges : List Edge) : Graph where
  nodes := nodes
  edges := edges
  nodePlaces := (Roll.ofList (·.id) nodes).places
  edgePlaces := (Roll.ofList (·.id) edges).places
  adjacency := .ofEdges nodes.length edges

/-- The graph without nodes. -/
def empty : Graph := ofParts [] []

def isEmpty (g : Graph) : Bool := g.nodes.isEmpty

def node? (g : Graph) (i : NodeIdx) : Option Node := g.nodes[i]?

def edge? (g : Graph) (i : EdgeIdx) : Option Edge := g.edges[i]?

/-- The place of the node with an id. -/
def nodeIdx? (g : Graph) (id : NodeId) : Option NodeIdx := g.nodePlaces.lookup id

/-- The place of the edge with an id. -/
def edgeIdx? (g : Graph) (id : EdgeId) : Option EdgeIdx := g.edgePlaces.lookup id

/-- The edges at a node, in order. -/
def incident (g : Graph) (i : NodeIdx) : List EdgeIdx := g.adjacency.incident[i]?.getD []

/-- The nodes across the edges at a node, in the order of the edges. -/
def neighbors (g : Graph) (i : NodeIdx) : List NodeIdx := g.adjacency.neighbors[i]?.getD []

end Graph

end TunnelMap
