import TunnelMap.Geometry.Point

/-! The course of an edge: a straight segment, or a quadratic curve whose control point stands
off the middle of the chord by a share of its length. Drawing, particles and the pointer all
follow it. -/

namespace TunnelMap

structure Curve (R : Type) where
  start : Point R
  control : Point R
  stop : Point R
  curved : Bool
  deriving DecidableEq, Repr

namespace Curve

variable {R : Type} [Scalar R]

/-- The curve between two points whose control point is `curvature` chords off the middle. A
curve without curvature or without length is straight. -/
def between (start stop : Point R) (curvature : R) : Curve R :=
  let dx := stop.x - start.x
  let dy := stop.y - start.y
  let mid : Point R := ⟨(start.x + stop.x) / 2, (start.y + stop.y) / 2⟩
  let curved := curvature != 0 && (dx != 0 || dy != 0)
  { start
    control := if curved then ⟨mid.x - dy * curvature, mid.y + dx * curvature⟩ else mid
    stop
    curved }

/-- The length of the chord. -/
def length (c : Curve R) : R := Point.hypot (c.stop.x - c.start.x) (c.stop.y - c.start.y)

/-- One coordinate of the quadratic curve at `t`. -/
def blend (t a b c : R) : R :=
  let u := 1 - t
  u * u * a + 2 * u * t * b + t * t * c

/-- The point at the share `t` of the way. -/
def pointAt (c : Curve R) (t : R) : Point R :=
  if c.curved then
    ⟨blend t c.start.x c.control.x c.stop.x, blend t c.start.y c.control.y c.stop.y⟩
  else ⟨c.start.x + (c.stop.x - c.start.x) * t, c.start.y + (c.stop.y - c.start.y) * t⟩

/-- The distance of a point from the segment between two others. -/
def segmentDist (p a b : Point R) : R :=
  let dx := b.x - a.x
  let dy := b.y - a.y
  let square := dx * dx + dy * dy
  let t := if 0 < square then Scalar.clamp 0 1 (((p.x - a.x) * dx + (p.y - a.y) * dy) / square)
    else 0
  p.dist ⟨a.x + dx * t, a.y + dy * t⟩

/-- How many chords stand for a curve when a distance is measured. -/
def chords : Nat := 16

/-- The `i`-th of the points between the chords. -/
def sample (c : Curve R) (i : Nat) : Point R :=
  if i = 0 then c.start else c.pointAt (Scalar.ofNat i / Scalar.ofNat chords)

/-- The least of some distances. -/
def least : List R → R
  | [] => Scalar.infinity
  | d :: ds => ds.foldl Scalar.min (if d == d then d else Scalar.infinity)

/-- The distance of a point from the segment or from the chords of the curve. -/
def distanceTo (c : Curve R) (p : Point R) : R :=
  if c.curved then
    least ((List.range chords).map fun i => segmentDist p (c.sample i) (c.sample (i + 1)))
  else segmentDist p c.start c.stop

end Curve

end TunnelMap
