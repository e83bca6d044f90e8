import TunnelMap.Geometry.Curve

/-! The particles that travel along tunnels, from the source to the target and around. -/

namespace TunnelMap.Curve

variable {R : Type} [Scalar R]

/-- How far the first particle is on its way after `time` at `speed` ways per second. -/
def phase (time speed : R) : R := Scalar.mod1 (time * speed)

/-- How far the `i`-th of `count` evenly spaced particles is on its way. -/
def particleShare (count : Nat) (phase : R) (i : Nat) : R :=
  Scalar.fract (phase + Scalar.ofNat i / Scalar.ofNat count)

/-- Where `count` particles are. -/
def particles (c : Curve R) (count : Nat) (time speed : R) : List (Point R) :=
  (List.range count).map fun i => c.pointAt (particleShare count (phase time speed) i)

end TunnelMap.Curve
