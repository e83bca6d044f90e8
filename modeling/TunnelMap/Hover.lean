import TunnelMap.Highlight

/-! What the pointer rests on, and what the surroundings are told when that changes. A target is
kept by its id, so it outlives a change of the graph. -/

namespace TunnelMap

inductive Target where
  | nothing
  | node (id : NodeId)
  | edge (id : EdgeId)
  deriving DecidableEq, Repr

inductive Event where
  | nodeHovered (id : Option NodeId)
  | linkHovered (id : Option EdgeId)
  | nodeClicked (id : NodeId)
  deriving DecidableEq, Repr

namespace Graph

/-- What a target counts as: a node or a tunnel of the graph, or nothing. -/
def resolve (g : Graph) : Target → Target
  | .nothing => .nothing
  | .node id => if (g.nodeIdx? id).isSome then .node id else .nothing
  | .edge id =>
    if ((g.edgeIdx? id).bind g.edge?).any Edge.isHoverable then .edge id else .nothing

/-- What stands out for a target. -/
def highlight (g : Graph) : Target → Highlight
  | .nothing => .none
  | .node id => g.nodeHighlight id
  | .edge id => g.edgeHighlight id

/-- What a click on a target tells. -/
def click (g : Graph) : Target → List Event
  | .node id => if (g.nodeIdx? id).isSome then [.nodeClicked id] else []
  | _ => []

end Graph

structure Hover where
  target : Target
  highlight : Highlight
  deriving DecidableEq, Repr

namespace Hover

/-- The pointer rests on nothing. -/
def idle : Hover := ⟨.nothing, .none⟩

/-- The place of the node under the pointer. -/
def node? (h : Hover) (g : Graph) : Option NodeIdx :=
  match h.target with
  | .node id => g.nodeIdx? id
  | _ => none

/-- What is told when one target is left for another: nothing between two of a kind. -/
def leaving : Target → Target → List Event
  | .node _, .node _ | .edge _, .edge _ => []
  | .node _, _ => [.nodeHovered none]
  | .edge _, _ => [.linkHovered none]
  | .nothing, _ => []

/-- What is told when a target is reached. -/
def reaching : Target → List Event
  | .node id => [.nodeHovered (some id)]
  | .edge id => [.linkHovered (some id)]
  | .nothing => []

/-- Goes over to a target, whatever it was before. -/
def turn (h : Hover) (g : Graph) (next : Target) : Hover × List Event :=
  (⟨next, g.highlight next⟩, leaving h.target next ++ reaching next)

/-- The pointer moves to a target. -/
def move (h : Hover) (g : Graph) (picked : Target) : Hover × List Event :=
  let next := g.resolve picked
  if next = h.target then (h, []) else h.turn g next

/-- The pointer leaves the surface. -/
def leave (h : Hover) (g : Graph) : Hover × List Event :=
  if h.target = .nothing then (h, []) else h.turn g .nothing

/-- Finds the target again in another graph. -/
def rebind (h : Hover) (g : Graph) : Hover × List Event :=
  let next := g.resolve h.target
  if next = h.target then ({ h with highlight := g.highlight next }, []) else h.turn g next

end Hover

end TunnelMap
