import TunnelMap.Geometry.Curve
import TunnelMap.Hover
import TunnelMap.Layout.Basic
import TunnelMap.Sizing

/-! The view of one canvas: a graph with its layout, seen through a camera, together with what
the pointer is about. -/

namespace TunnelMap

/-- Where the origin of the world is on the screen, and how many pixels a world unit has. -/
structure Camera (R : Type) where
  x : R
  y : R
  k : R
  deriving DecidableEq, Repr

/-- The grip of the pointer on a node. -/
structure Drag (R : Type) where
  active : Bool
  node : Option NodeIdx
  /-- Where the pointer took it, on the screen. -/
  start : Point R
  /-- Where the node was then, in the world. -/
  nodeStart : Point R
  deriving DecidableEq, Repr

namespace Drag

variable {R : Type} [Scalar R]

/-- The pointer holds no node. -/
def idle : Drag R := ⟨false, none, .origin, .origin⟩

@[simp] theorem active_idle : (idle : Drag R).active = false := rfl

@[simp] theorem node_idle : (idle : Drag R).node = none := rfl

end Drag

/-- The last grip of the pointer on the background. -/
structure Pan (R : Type) where
  active : Bool
  /-- Where the pointer took it, on the screen. -/
  start : Point R
  /-- Where the camera was then. -/
  cameraStart : Point R
  deriving DecidableEq, Repr

structure View (R S : Type) where
  graph : Graph
  layout : Layout R S
  tuning : Tuning R
  hover : Hover
  sizing : Sizing R
  /-- The sizes for the zoom of the camera when they were last looked up. -/
  sizes : Sizes R
  camera : Camera R
  drag : Drag R
  pan : Pan R
  /-- Whether the pointer has travelled since it was last pressed. -/
  moved : Bool
  width : R
  height : R
  /-- Seconds since the start, for the particles. -/
  flowTime : R

/-- What an operation leaves behind: a value, the events that it told and what it said. -/
structure Outcome (α : Type) where
  value : α
  events : List Event := []
  notices : List Notice := []

namespace Outcome

def map {α β : Type} (f : α → β) (o : Outcome α) : Outcome β := ⟨f o.value, o.events, o.notices⟩

end Outcome

namespace Camera

variable {R : Type} [Scalar R]

/-- The world point that a screen point shows. -/
def toWorld (c : Camera R) (p : Point R) : Point R := ⟨(p.x - c.x) / c.k, (p.y - c.y) / c.k⟩

/-- The screen point that shows a world point. -/
def toScreen (c : Camera R) (p : Point R) : Point R := ⟨p.x * c.k + c.x, p.y * c.k + c.y⟩

def minZoom : R := 0.1

def maxZoom : R := 10

/-- A step of the wheel, away for a positive turn. The screen point `p` keeps its world point. -/
def zoomAt (c : Camera R) (p : Point R) (turn : R) : Camera R :=
  let factor := if 0 < turn then 0.9 else 1.1
  let k := Scalar.clamp minZoom maxZoom (c.k * factor)
  let ratio := k / c.k
  ⟨p.x - (p.x - c.x) * ratio, p.y - (p.y - c.y) * ratio, k⟩

end Camera

/-- The place with the least distance; of several the first. -/
def nearest {R : Type} [Scalar R] (found : List (Nat × R)) : Option Nat :=
  (found.foldl (fun best c =>
    match best with
    | none => some c
    | some b => if c.2 < b.2 then some c else some b) none).map Prod.fst

namespace View

variable {R S : Type} [Scalar R] [Engine S] [Precision R S]

/-- A view of a graph, unless some sizes are out of order at zoom one. -/
def start? (g : Graph) (tuning : Tuning R) (sizing : Sizing R) (width height : R) :
    Option (Outcome (View R S)) := do
  let sizes ← sizing.sizesAt? 1
  return {
    value :=
      { graph := g
        layout := (Layout.ofGraph g tuning).tune tuning g
        tuning
        hover := .idle
        sizing
        sizes
        camera := ⟨width / 2, height / 2, 1⟩
        drag := .idle
        pan := ⟨false, .origin, .origin⟩
        moved := false
        width
        height
        flowTime := 0 }
    notices := Layout.tuneNotices g ++ [.mounted g.nodes.length g.edges.length] }

/-! ### What is under the pointer -/

/-- The curve of an edge, as it is drawn. -/
def curve? (v : View R S) (e : Edge) : Option (Curve R) := do
  let s ← v.layout.positions[e.source]?
  let t ← v.layout.positions[e.target]?
  return .between s t (v.sizing.edge.curvature e.kind)

/-- The nodes that a screen point is near enough to, with their distances. -/
def nodesNear (v : View R S) (p : Point R) : List (NodeIdx × R) :=
  let q := v.camera.toWorld p
  v.graph.nodes.zipIdx.filterMap fun (n, i) => do
    let d := (← v.layout.positions[i]?).dist q
    if d < v.sizes.hitRadiusOf n.kind then some (i, d) else none

/-- The edges that a screen point is near enough to, with their distances. -/
def edgesNear (v : View R S) (p : Point R) : List (EdgeIdx × R) :=
  let q := v.camera.toWorld p
  v.graph.edges.zipIdx.filterMap fun (e, i) => do
    let d := (← v.curve? e).distanceTo q
    if d ≤ v.sizes.edgeHitTolerance then some (i, d) else none

def nodeAt? (v : View R S) (p : Point R) : Option NodeIdx := nearest (v.nodesNear p)

def edgeAt? (v : View R S) (p : Point R) : Option EdgeIdx := nearest (v.edgesNear p)

/-- What a screen point shows: a node, or else an edge. -/
def pick (v : View R S) (p : Point R) : Target :=
  match (v.nodeAt? p).bind v.graph.node? with
  | some n => .node n.id
  | none =>
    match (v.edgeAt? p).bind v.graph.edge? with
    | some e => .edge e.id
    | none => .nothing

/-! ### Changes from outside -/

/-- Goes over to another graph. Nodes that stay keep their places, the layout is heated, the
hover target is found again and a drag ends. -/
def replace (v : View R S) (g : Graph) : Outcome (View R S) :=
  let (layout, carried) := (Layout.ofGraph g v.tuning).carryOver g v.graph v.layout
  let (hover, events) := v.hover.rebind g
  { value := { v with graph := g, layout := layout.tune v.tuning g, hover, drag := .idle }
    events
    notices := .positionsCarried carried ::
      (Layout.tuneNotices g ++ [.replaced g.nodes.length g.edges.length]) }

/-- Brings the layout to another tuning. -/
def retune (v : View R S) (tuning : Tuning R) : Outcome (View R S) :=
  { value := { v with tuning, layout := v.layout.tune tuning v.graph }
    notices := Layout.tuneNotices v.graph }

def resize (v : View R S) (width height : R) : View R S := { v with width, height }

/-- Looks up the sizes for the zoom of the camera, if they are for another. -/
def refresh? (v : View R S) : Option (View R S) :=
  if v.sizes.k == v.camera.k then some v
  else (v.sizing.sizesAt? v.camera.k).map fun sizes => { v with sizes }

/-- Lets time pass. -/
def tick? (v : View R S) (dt : S) : Option (View R S) := do
  let v ← v.refresh?
  return { v with layout := v.layout.tick dt, flowTime := v.flowTime + widen dt }

/-- Turns the wheel over a screen point. -/
def zoomAt? (v : View R S) (p : Point R) (turn : R) : Option (View R S) :=
  refresh? { v with camera := v.camera.zoomAt p turn }

end View

end TunnelMap
