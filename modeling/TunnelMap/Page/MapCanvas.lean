import TunnelMap.Page.Markup
import TunnelMap.Picture.Scene
import TunnelMap.View.Operation

/-! A map on a canvas of a page. It comes to life with the first snapshot that finds the canvas
ready to draw on; from then on each frame moves it a step and draws it, and a further snapshot
changes its graph. -/

namespace TunnelMap

/-- The surroundings of a canvas, as far as the map looks at them. -/
structure Surroundings (R : Type) where
  /-- The inner size of the window, where it has one. -/
  innerWidth : Option R
  innerHeight : Option R
  /-- The size of the element around the canvas, if there is one. -/
  parent : Option (R × R)
  /-- The upper left corner of the canvas in the window. -/
  corner : Point R
  /-- Whether the canvas can be drawn on. -/
  drawable : Bool
  /-- The time in milliseconds. -/
  now : R

/-- The events that somebody waits for. -/
structure Callbacks where
  nodeHovered : Bool := true
  linkHovered : Bool := true
  nodeClicked : Bool := true

def Callbacks.takes (c : Callbacks) : Event → Bool
  | .nodeHovered _ => c.nodeHovered
  | .linkHovered _ => c.linkHovered
  | .nodeClicked _ => c.nodeClicked

/-- What a map is made with. -/
structure MapSettings (R : Type) where
  tuning : Tuning R
  sizing : Sizing R
  theme : Theme R
  callbacks : Callbacks
  /-- Whether the map fills the window and follows its size. -/
  fullscreen : Bool
  width : Option R
  height : Option R

/-- A map that lives. -/
structure LiveMap (R S : Type) where
  view : View R S
  /-- When the last frame was drawn. -/
  lastFrame : R

structure MapCanvas (R S : Type) where
  settings : MapSettings R
  surroundings : Surroundings R
  /-- The size of the canvas in pixels. -/
  size : UInt32 × UInt32
  live : Option (LiveMap R S)
  /-- How many frames are asked for. -/
  frames : Nat
  /-- What the window is listened to for. -/
  listeners : List String

namespace Surroundings

variable {R : Type} [Scalar R]

/-- The inner size of the window, or a usual one. -/
def windowSize (s : Surroundings R) : R × R := (s.innerWidth.getD 800, s.innerHeight.getD 600)

/-- The size of the element around the canvas, or a usual one. -/
def parentSize (s : Surroundings R) : R × R := s.parent.getD (800, 600)

/-- A point of the window on the canvas. -/
def onCanvas (s : Surroundings R) (p : Point R) : Point R := ⟨p.x - s.corner.x, p.y - s.corner.y⟩

end Surroundings

/-- The graph of a snapshot, if it has one, and what there is to say. -/
def Graph.Built.graph? (b : Graph.Built) : Option Graph × List Notice :=
  match b.result with
  | .ok g => (some g, b.notices)
  | .error e => (none, b.notices ++ [.rejected e])

namespace MapCanvas

variable {R S : Type} [Scalar R] [Engine S] [Precision R S]

/-- The element that a map consists of. -/
def markup : Markup :=
  .element "canvas" [("class", "topology-canvas"), ("style", "display: block; cursor: grab;")] []

/-- A canvas that nothing has been drawn on. -/
def fresh (settings : MapSettings R) (surroundings : Surroundings R) : MapCanvas R S :=
  { settings, surroundings, size := (0, 0), live := none, frames := 0, listeners := [] }

/-- The size that a map starts with. -/
def startSize (c : MapCanvas R S) : R × R :=
  if c.settings.fullscreen then c.surroundings.windowSize
  else
    let (w, h) := c.surroundings.parentSize
    (c.settings.width.getD w, c.settings.height.getD h)

def setSize (c : MapCanvas R S) (width height : R) : MapCanvas R S :=
  { c with size := (Scalar.toWord width, Scalar.toWord height) }

/-- Comes to life with a snapshot; one without a graph counts as empty. -/
def mount? (c : MapCanvas R S) (s : Snapshot) : Option (Outcome (MapCanvas R S)) := do
  let (w, h) := c.startSize
  let c := c.setSize w h
  if !c.surroundings.drawable then return { value := c, notices := [.canvasUnavailable] }
  let (g, notices) := s.build.graph?
  let o ← View.start? (g.getD .empty) c.settings.tuning c.settings.sizing w h
  return {
    value := { c with
      live := some ⟨o.value, c.surroundings.now⟩
      frames := c.frames + 1
      listeners := if c.settings.fullscreen then c.listeners ++ ["resize"] else c.listeners }
    notices := notices ++ o.notices }

/-- Puts an outcome of the view of a living map back on the canvas. -/
def withView (c : MapCanvas R S) (m : LiveMap R S) (o : Outcome (View R S)) :
    Outcome (MapCanvas R S) :=
  { value := { c with live := some { m with view := o.value } }
    events := o.events.filter c.settings.callbacks.takes
    notices := o.notices }

/-- Takes a snapshot: a living map changes its graph, unless the snapshot has none. -/
def deliver? (c : MapCanvas R S) (s : Snapshot) : Option (Outcome (MapCanvas R S)) :=
  match c.live with
  | none => c.mount? s
  | some m =>
    let (g, notices) := s.build.graph?
    match g with
    | some g =>
      let o := m.view.replace g
      some (c.withView m { o with notices := notices ++ o.notices })
    | none => some { value := c, notices }

/-- Does an operation on the view of a living map. -/
def perform? (c : MapCanvas R S) (op : Operation R S) : Option (Outcome (MapCanvas R S)) :=
  match c.live with
  | none => some { value := c }
  | some m => (m.view.perform? op).map (c.withView m)

/-! ### The window -/

/-- What happens in the window, at points of the window. -/
inductive Input (R : Type) where
  | down (p : Point R)
  | move (p : Point R)
  | up (p : Point R)
  | leave
  | wheel (p : Point R) (turn : R)

namespace Input

omit [Engine S] [Precision R S] in
/-- What an input does to the view. -/
def operation (surroundings : Surroundings R) : Input R → Operation R S
  | .down p => .press (surroundings.onCanvas p)
  | .move p => .point (surroundings.onCanvas p)
  | .up p => .lift (surroundings.onCanvas p)
  | .leave => .exit
  | .wheel p turn => .zoom (surroundings.onCanvas p) turn

/-- Only the wheel is kept from scrolling the page. -/
def prevents : Input R → Bool
  | .wheel .. => true
  | _ => false

end Input

def handle? (c : MapCanvas R S) (i : Input R) : Option (Outcome (MapCanvas R S)) :=
  c.perform? (i.operation c.surroundings)

/-- The window takes another size; a map that fills it follows. -/
def resizeWindow? (c : MapCanvas R S) (width height : Option R) :
    Option (Outcome (MapCanvas R S)) :=
  let c : MapCanvas R S := { c with
    surroundings := { c.surroundings with innerWidth := width, innerHeight := height } }
  if c.listeners.isEmpty then some { value := c }
  else
    let (w, h) := c.surroundings.windowSize
    (c.setSize w h).perform? (.resize w h)

/-! ### Frames -/

/-- The longest step of a frame, in seconds. -/
def maxFrame : R := 0.05

/-- How far a frame moves the map, in seconds. -/
def frameStep (last now : R) : R := Scalar.clamp 0 maxFrame ((now - last) / 1000)

/-- Moves and draws the map, and asks for the next frame. -/
def drawFrame? (c : MapCanvas R S) : Option (MapCanvas R S × List (Call R)) :=
  match c.live with
  | none => some (c, [])
  | some m => do
    let now := c.surroundings.now
    let view ← m.view.tick? (narrow (frameStep m.lastFrame now))
    return ({ c with live := some ⟨view, now⟩, frames := c.frames + 1 }, view.draw c.settings.theme)

/-- Draws `n` frames. -/
def drawFrames? : (n : Nat) → MapCanvas R S → Option (MapCanvas R S × List (Call R))
  | 0, c => some (c, [])
  | n + 1, c => do
    let (c, calls) ← c.drawFrame?
    let (c, more) ← drawFrames? n c
    return (c, calls ++ more)

/-- Lets milliseconds pass and then draws the frames that were asked for. -/
def frame? (c : MapCanvas R S) (ms : R) : Option (MapCanvas R S × List (Call R)) :=
  let asked := c.frames
  drawFrames? asked { c with
    surroundings := { c.surroundings with now := c.surroundings.now + ms }
    frames := 0 }

end MapCanvas

end TunnelMap
