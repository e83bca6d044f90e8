import TunnelMap.Picture.Entity
import TunnelMap.View.Basic

/-! The picture of a whole view: the background, then in the coordinates of the world all edges,
the nodes that do not stand out, and above them those that do. -/

namespace TunnelMap

namespace Frame

variable {R : Type} [Scalar R]

omit [Scalar R] in
/-- Whether a node is drawn above the others. -/
def isAbove (f : Frame R) (i : NodeIdx) : Bool := f.highlight.hasNode i || f.hovered == some i

/-- The nodes that are drawn above the others, or those that are not. -/
def drawNodes (f : Frame R) (g : Graph) (above : Bool) : List (Call R) :=
  (g.nodes.zipIdx.filter fun p => f.isAbove p.2 == above).flatMap fun p => f.drawNode p.2 p.1

def drawEdges (f : Frame R) (g : Graph) : List (Call R) :=
  g.edges.zipIdx.flatMap fun p => f.drawEdge p.2 p.1

end Frame

namespace View

variable {R S : Type} [Scalar R]

omit [Scalar R] in
/-- What the entities of a view have in common. -/
def frame (v : View R S) (theme : Theme R) : Frame R :=
  { sizes := v.sizes
    edgeSizing := v.sizing.edge
    theme
    highlight := v.hover.highlight
    hovered := v.hover.node? v.graph
    positions := v.layout.positions
    flowTime := v.flowTime }

/-- Draws a view. -/
def draw (v : View R S) (theme : Theme R) : List (Call R) :=
  let f := v.frame theme
  [.fillStyle theme.background, .fillRect .origin v.width v.height, .save,
    .translate v.camera.x v.camera.y, .scale v.camera.k v.camera.k] ++
  f.drawEdges v.graph ++ f.drawNodes v.graph false ++ f.drawNodes v.graph true ++ [.restore]

end View

end TunnelMap
