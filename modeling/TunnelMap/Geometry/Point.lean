import TunnelMap.Scalar

/-! Points of the plane. -/

namespace TunnelMap

structure Point (R : Type) where
  x : R
  y : R
  deriving DecidableEq, Repr

namespace Point

variable {R : Type} [Scalar R]

def origin : Point R := ⟨0, 0⟩

/-- The length of a way of `dx` across and `dy` up. -/
def hypot (dx dy : R) : R := Scalar.sqrt (dx * dx + dy * dy)

/-- The distance between two points. -/
def dist (p q : Point R) : R := hypot (p.x - q.x) (p.y - q.y)

end Point

end TunnelMap
