import TunnelMap.Graph.Basic

/-! The bodies of a layout and the engine that moves them. A layout adds a body for each of its nodes, and
from then on an engine lets the bodies act on each other, one sweep after the other. What the forces are
is up to the engine: all that is relied on is that it tells the bodies apart, keeps them, and leaves
those that are anchored alone. -/

namespace TunnelMap

/-- What a body is known by among the bodies. -/
structure Handle where
  number : Nat
  deriving DecidableEq, Repr

structure Body (S : Type) where
  handle : Handle
  /-- The node that the body stands for. -/
  node : NodeIdx
  x : S
  y : S
  vx : S
  vy : S
  ax : S
  ay : S
  /-- An anchored body feels no force and does not move. -/
  anchored : Bool
  deriving DecidableEq, Repr

/-- What holds for all bodies during one sweep. -/
structure Sweep (S : Type) where
  charge : S
  damping : S
  /-- The time that passes. -/
  dt : S

/-- What layouts rely on. -/
structure Engine.Laws {S : Type} (handle : Nat → Handle) (move : Sweep S → List (Body S) → List (Body S)) :
    Prop where
  /-- Bodies are told apart. -/
  handle_inj : ∀ {m n}, handle m = handle n → m = n
  /-- Each body comes out of a sweep at its place among the bodies. -/
  handles : ∀ sweep bodies, (move sweep bodies).map (·.handle) = bodies.map (·.handle)
  nodes : ∀ sweep bodies, (move sweep bodies).map (·.node) = bodies.map (·.node)
  /-- An anchored body comes out of a sweep as it went in. -/
  anchored : ∀ sweep {bodies b}, b ∈ bodies → b.anchored → b ∈ move sweep bodies

/-- An engine of forces. -/
class Engine (S : Type) where
  /-- What the `n`-th body is known by that is added. -/
  handle : Nat → Handle
  /-- The speed and the acceleration along either axis of a body that is added. -/
  rest : S
  /-- Lets all bodies act on each other during a sweep. -/
  move : Sweep S → List (Body S) → List (Body S)
  laws : Engine.Laws handle move

namespace Body

variable {S : Type} [Engine S]

/-- Adds a body at rest to others, and says what it is known by. -/
def add (bodies : List (Body S)) (node : NodeIdx) (x y : S) : Handle × List (Body S) :=
  let handle := Engine.handle S bodies.length
  let rest : S := Engine.rest
  (handle, bodies ++ [⟨handle, node, x, y, rest, rest, rest, rest, false⟩])

end Body

end TunnelMap
