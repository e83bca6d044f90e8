import TunnelMap.Graph.Basic
import TunnelMap.Scalar

/-! The numbers that shape a layout, and the orders that carry them to it. Attachments are short
and stiff, so interfaces stay at their hosts; tunnels are long and soft, so meshes spread. -/

namespace TunnelMap

/-- The rest length of a link, and the share of an error that one step makes good. -/
structure LinkParams (R : Type) where
  distance : R
  strength : R
  deriving DecidableEq, Repr

structure Tuning (R : Type) where
  /-- For links at a host. -/
  spoke : LinkParams R
  /-- For links between interfaces. -/
  peer : LinkParams R
  /-- How strongly each node draws the others; below zero it pushes them away. -/
  charge : R
  /-- The share of the heat that a step takes. -/
  alphaDecay : R
  /-- The heat below which a layout rests. -/
  alphaMin : R
  /-- The share of the speed that a step leaves. -/
  velocityRetention : R
  deriving DecidableEq, Repr

/-- What a layout can be told. -/
inductive Order (R : Type) where
  | setLink (edge : EdgeIdx) (params : LinkParams R)
  | setCharge (node : NodeIdx) (strength : R)
  /-- Starts cooling anew from full heat. -/
  | reheat
  deriving DecidableEq, Repr

namespace Tuning

variable {R : Type} [Scalar R]

def standard : Tuning R where
  spoke := ⟨6, 1⟩
  peer := ⟨30, 0.2⟩
  charge := -15
  alphaDecay := 0.0228
  alphaMin := 0.001
  velocityRetention := 0.6

omit [Scalar R] in
def linkFor (t : Tuning R) (e : Edge) : LinkParams R :=
  match e.kind with
  | .spoke => t.spoke
  | .peer => t.peer

omit [Scalar R] in
/-- The orders that bring a layout of a graph to a tuning: all links, all nodes, then heat. -/
def orders (t : Tuning R) (g : Graph) : List (Order R) :=
  g.edges.zipIdx.map (fun (e, i) => .setLink i (t.linkFor e)) ++
    (g.nodes.zipIdx.map (fun (_, i) => .setCharge i t.charge) ++ [.reheat])

end Tuning

end TunnelMap
