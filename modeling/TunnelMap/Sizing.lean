import TunnelMap.Scalar
import TunnelMap.Snapshot.Basic

/-! Sizes by zoom. World sizes grow on the screen as the view comes nearer, screen sizes stay as
they are. All that is drawn is drawn in the world, so `Sizes` holds world sizes for one
zoom. -/

namespace TunnelMap

/-- How a size goes with the zoom. -/
inductive Extent (R : Type) where
  | world
  | screen
  /-- A world size that the screen holds between two bounds. -/
  | clamped (min max : R)
  deriving DecidableEq, Repr

/-- How far something is seen, by the zoom. -/
inductive Visibility (R : Type) where
  | constant
  /-- Not at all at one zoom, fully at the other. -/
  | fade (zero full : R)
  deriving DecidableEq, Repr

structure NodeSizing (R : Type) where
  radius : R
  radiusExtent : Extent R
  hitRadius : R
  hitExtent : Extent R
  /-- The radius of a ring, in radii of its node. -/
  ringFactor : R
  ringWidth : R
  deriving DecidableEq, Repr

structure LabelSizing (R : Type) where
  /-- The size of a name at zoom one, in pixels. -/
  size : R
  minPx : R
  maxPx : R
  /-- The size of an address, in sizes of the name. -/
  addressRatio : R
  addressAlpha : Visibility R
  deriving DecidableEq, Repr

structure EdgeSizing (R : Type) where
  spokeWidth : R
  peerWidth : R
  highlightExtraWidth : R
  peerCurvature : R
  peerParticles : Nat
  particleRadius : R
  particleSpeed : R
  hitTolerance : R
  deriving DecidableEq, Repr

structure Sizing (R : Type) where
  node : NodeSizing R
  label : LabelSizing R
  edge : EdgeSizing R
  deriving DecidableEq, Repr

structure Font (R : Type) where
  size : R
  family : String
  deriving DecidableEq, Repr

/-- World sizes for the zoom `k`. -/
structure Sizes (R : Type) where
  k : R
  nodeRadius : R
  hitRadius : R
  ringFactor : R
  ringWidth : R
  labelSize : R
  labelFont : Font R
  addressFont : Font R
  addressAlpha : R
  spokeWidth : R
  peerWidth : R
  highlightExtraWidth : R
  particleRadius : R
  edgeHitTolerance : R
  deriving DecidableEq, Repr

variable {R : Type} [Scalar R]

/-- The world size of a base size at a zoom, unless the bounds are out of order there. -/
def Extent.apply? (e : Extent R) (base k : R) : Option R :=
  match e with
  | .world => some base
  | .screen => some (base / k)
  | .clamped min max => Scalar.clamp? (min / k) (max / k) base

/-- The share of opacity at a zoom. -/
def Visibility.apply (v : Visibility R) (k : R) : R :=
  match v with
  | .constant => 1
  | .fade zero full =>
    if zero == full then 1 else Scalar.clamp 0 1 ((k - zero) / (full - zero))

/-- The size of a node beside others: hubs are larger. -/
def NodeKind.size : NodeKind → R
  | .host => 2
  | .interface => 1

/-- The size of a name on the screen, unless its bounds are out of order. It grows as the
logarithm of the zoom, and is the nominal size at zoom one. -/
def LabelSizing.screenPx? (l : LabelSizing R) (k : R) : Option R :=
  Scalar.clamp? l.minPx l.maxPx (l.size * Scalar.ln (1 + k) / Scalar.ln2)

/-- Tunnels bow, so that meshes stay readable; attachments are straight. -/
def EdgeSizing.curvature (s : EdgeSizing R) : EdgeKind → R
  | .spoke => 0
  | .peer => s.peerCurvature

namespace Sizing

def standard : Sizing R where
  node :=
    { radius := 2
      radiusExtent := .clamped 2 Scalar.infinity
      hitRadius := 3
      hitExtent := .clamped 6 Scalar.infinity
      ringFactor := 1.4
      ringWidth := 1.5 }
  label :=
    { size := 12
      minPx := 4
      maxPx := 22
      addressRatio := 0.8
      addressAlpha := .fade 0.8 1.5 }
  edge :=
    { spokeWidth := 0.5
      peerWidth := 1
      highlightExtraWidth := 2
      peerCurvature := 0.2
      peerParticles := 2
      particleRadius := 1.5
      particleSpeed := 0.4
      hitTolerance := 4 }

/-- The sizes at a zoom, unless some bounds are out of order there. -/
def sizesAt? (s : Sizing R) (k : R) : Option (Sizes R) := do
  let labelSize := (← s.label.screenPx? k) / k
  let nodeRadius ← s.node.radiusExtent.apply? s.node.radius k
  let hitRadius ← s.node.hitExtent.apply? s.node.hitRadius k
  return {
    k
    nodeRadius
    hitRadius
    ringFactor := s.node.ringFactor
    ringWidth := s.node.ringWidth / k
    labelSize
    labelFont := ⟨labelSize, "sans-serif"⟩
    addressFont := ⟨labelSize * s.label.addressRatio, "monospace"⟩
    addressAlpha := s.label.addressAlpha.apply k
    spokeWidth := s.edge.spokeWidth / k
    peerWidth := s.edge.peerWidth / k
    highlightExtraWidth := s.edge.highlightExtraWidth / k
    particleRadius := s.edge.particleRadius / k
    edgeHitTolerance := s.edge.hitTolerance / k }

end Sizing

namespace Sizes

def radiusOf (s : Sizes R) (kind : NodeKind) : R := s.nodeRadius * kind.size

/-- How near the pointer must be to a node. -/
def hitRadiusOf (s : Sizes R) (kind : NodeKind) : R := s.hitRadius * kind.size

end Sizes

end TunnelMap
