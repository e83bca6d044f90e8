import TunnelMap.Geometry.Flow
import TunnelMap.Graph.Basic
import TunnelMap.Highlight
import TunnelMap.Picture.Call

/-! The picture of one node or edge. What it looks like is decided first; drawing it spells the
decision out in calls, which leave the canvas opaque as they found it. -/

namespace TunnelMap

/-- A ring around a node that stands out. -/
inductive Ring where
  | hovered
  | neighbor
  deriving DecidableEq, Repr

structure NodeLook where
  /-- Faded, since something else stands out. -/
  dimmed : Bool
  ring : Option Ring
  labelled : Bool
  deriving DecidableEq, Repr

structure EdgeLook (R : Type) where
  width : R
  curvature : R
  particles : Nat
  particleRadius : R
  highlighted : Bool
  dimmed : Bool
  deriving DecidableEq, Repr

/-- What all entities of a picture have in common. -/
structure Frame (R : Type) where
  sizes : Sizes R
  edgeSizing : EdgeSizing R
  theme : Theme R
  highlight : Highlight
  hovered : Option NodeIdx
  positions : List (Point R)
  flowTime : R

/-- The look of the `i`-th node. -/
def NodeLook.of (highlight : Highlight) (hovered : Option NodeIdx) (i : NodeIdx) (n : Node) :
    NodeLook :=
  let ring :=
    if hovered = some i then some Ring.hovered
    else if highlight.hasNode i then some .neighbor
    else none
  ⟨!highlight.isEmpty && ring.isNone, ring, n.kind.isHub⟩

namespace EdgeLook

variable {R : Type} [Scalar R]

/-- The look of an edge that is highlighted or not, where something is highlighted or not. -/
def of (sizes : Sizes R) (sizing : EdgeSizing R) (e : Edge) (highlighted any : Bool) :
    EdgeLook R :=
  let extra := if highlighted then sizes.highlightExtraWidth else 0
  let dimmed := any && !highlighted
  let curvature := sizing.curvature e.kind
  match e.kind with
  | .spoke => ⟨sizes.spokeWidth + extra, curvature, 0, 0, highlighted, dimmed⟩
  | .peer =>
    ⟨sizes.peerWidth + extra, curvature, sizing.peerParticles,
      if highlighted then sizes.particleRadius * 2 else sizes.particleRadius, highlighted, dimmed⟩

end EdgeLook

namespace Frame

variable {R : Type} [Scalar R]

omit [Scalar R] in
def nodeLook (f : Frame R) (i : NodeIdx) (n : Node) : NodeLook :=
  .of f.highlight f.hovered i n

def edgeLook (f : Frame R) (i : EdgeIdx) (e : Edge) : EdgeLook R :=
  .of f.sizes f.edgeSizing e (f.highlight.hasEdge i) (!f.highlight.isEmpty)

/-- The opacity of an entity. -/
def opacity (f : Frame R) (dimmed : Bool) : R := if dimmed then f.theme.dimAlpha else 1

/-- The line of a curve, from a new path to its stroke. -/
def strokeCurve (c : Curve R) : List (Call R) :=
  [.beginPath, .moveTo c.start,
    if c.curved then .quadraticCurveTo c.control c.stop else .lineTo c.stop, .stroke]

/-- A disc at each of some points. -/
def discs (radius : R) (points : List (Point R)) : List (Call R) :=
  points.flatMap fun p => [.beginPath, .circle p radius, .fill]

/-- The particles on a curve. -/
def drawParticles (f : Frame R) (look : EdgeLook R) (c : Curve R) : List (Call R) :=
  if look.particles = 0 then []
  else
    .fillStyle f.theme.particle ::
      discs look.particleRadius
        (c.particles look.particles f.flowTime f.edgeSizing.particleSpeed)

/-- Draws the `i`-th edge with its particles; without places for its ends there is nothing to
draw. -/
def drawEdge (f : Frame R) (i : EdgeIdx) (e : Edge) : List (Call R) :=
  match f.positions[e.source]?, f.positions[e.target]? with
  | some start, some stop =>
    let look := f.edgeLook i e
    let curve := Curve.between start stop look.curvature
    [.globalAlpha (f.opacity look.dimmed),
      .strokeStyle (if look.highlighted then f.theme.edgeHighlight else f.theme.edge e.kind),
      .lineWidth look.width] ++
    strokeCurve curve ++ f.drawParticles look curve ++ [.globalAlpha 1]
  | _, _ => []

/-- The ring around a node. -/
def drawRing (f : Frame R) (p : Point R) (radius : R) : Option Ring → List (Call R)
  | none => []
  | some ring =>
    [.beginPath, .circle p (radius * f.sizes.ringFactor),
      .strokeStyle (match ring with
        | .hovered => f.theme.hoverRing
        | .neighbor => f.theme.neighborRing),
      .lineWidth f.sizes.ringWidth, .stroke]

/-- The opacity under which an address is left out. -/
def leastAlpha : R := 0.01

/-- The name of a node below `top`, and its address below the name. -/
def drawLabels (f : Frame R) (n : Node) (x top alpha : R) : List (Call R) :=
  let gap := f.sizes.labelSize * 0.25
  let addressAlpha := alpha * f.sizes.addressAlpha
  [.textAlign "center", .textBaseline "top", .font f.sizes.labelFont, .fillStyle f.theme.label,
    .fillText (n.attrs.name.getD n.id.text) ⟨x, top + gap⟩] ++
  match n.attrs.address with
  | none => []
  | some address =>
    if leastAlpha < addressAlpha then
      [.globalAlpha addressAlpha, .font f.sizes.addressFont, .fillStyle f.theme.address,
        .fillText address ⟨x, top + gap * 2 + f.sizes.labelSize⟩]
    else []

/-- Draws the `i`-th node with its ring and labels; without a place there is nothing to
draw. -/
def drawNode (f : Frame R) (i : NodeIdx) (n : Node) : List (Call R) :=
  match f.positions[i]? with
  | some p =>
    let look := f.nodeLook i n
    let radius := f.sizes.radiusOf n.kind
    let alpha := f.opacity look.dimmed
    [.globalAlpha alpha, .beginPath, .circle p radius, .fillStyle (f.theme.node n.kind), .fill] ++
    f.drawRing p radius look.ring ++
    (if look.labelled then f.drawLabels n p.x (p.y + radius * f.sizes.ringFactor) alpha else []) ++
    [.globalAlpha 1]
  | none => []

end Frame

end TunnelMap
