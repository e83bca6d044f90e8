import TunnelMap.View.Basic

/-! The pointer on a view. A press takes the node under it, or else the background; a press that
does not travel is a click. -/

namespace TunnelMap.View

variable {R S : Type} [Scalar R] [Engine S] [Precision R S]

/-- How many pixels a press may travel and still be a click. -/
def clickSlop : R := 3

/-- Whether the pointer holds a node or the background. -/
def isPressed (v : View R S) : Bool := v.drag.active || v.pan.active

omit [Engine S] [Precision R S] in
/-- Lets go of whatever the pointer holds. -/
def release (v : View R S) : View R S := { v with drag := .idle, pan.active := false }

omit [Engine S] [Precision R S] in
/-- Notes when the pointer has travelled. -/
def track (v : View R S) (start p : Point R) : View R S :=
  if clickSlop < p.dist start then { v with moved := true } else v

omit [Engine S] [Precision R S] in
/-- Takes the node or the background under the pointer. -/
def press (v : View R S) (p : Point R) : View R S :=
  match v.nodeAt? p with
  | some i =>
    { v with moved := false, drag := ⟨true, some i, p, v.layout.positions[i]?.getD .origin⟩ }
  | none => { v with moved := false, pan := ⟨true, p, ⟨v.camera.x, v.camera.y⟩⟩ }

omit [Engine S] [Precision R S] in
/-- Where the drag takes its node when the pointer is at `p`. -/
def dragged (v : View R S) (p : Point R) : Point R :=
  ⟨v.drag.nodeStart.x + (p.x - v.drag.start.x) / v.camera.k,
    v.drag.nodeStart.y + (p.y - v.drag.start.y) / v.camera.k⟩

omit [Engine S] in
/-- Takes the node of the drag along, once the pointer has travelled. -/
def dragTo (v : View R S) (p : Point R) : Outcome (View R S) :=
  let v := v.track v.drag.start p
  match v.drag.node with
  | some i =>
    if v.moved then
      let layout := v.layout.pin i (v.dragged p)
      if layout.isRunning then { value := { v with layout } }
      else { value := { v with layout := layout.obey .reheat }, notices := [.reheated] }
    else { value := v }
  | none => { value := v }

omit [Engine S] [Precision R S] in
/-- Takes the background along, if the pointer holds it. -/
def panTo (v : View R S) (p : Point R) : View R S :=
  if v.pan.active then
    let v := v.track v.pan.start p
    { v with
      camera.x := v.pan.cameraStart.x + (p.x - v.pan.start.x)
      camera.y := v.pan.cameraStart.y + (p.y - v.pan.start.y) }
  else v

omit [Engine S] in
/-- Moves the pointer. A drag has it for itself; else it may move the background, and what is
under it then is the hover target. -/
def point (v : View R S) (p : Point R) : Outcome (View R S) :=
  if v.drag.active then v.dragTo p
  else
    let v := v.panTo p
    let (hover, events) := v.hover.move v.graph (v.pick p)
    { value := { v with hover }, events }

omit [Engine S] [Precision R S] in
/-- Lets the pointer go. -/
def lift (v : View R S) (p : Point R) : Outcome (View R S) :=
  { value := v.release
    events := if v.isPressed && !v.moved then v.graph.click (v.pick p) else []
    notices := match v.drag.node with
      | some i => if v.moved then [.pinned i] else []
      | none => [] }

omit [Engine S] [Precision R S] in
/-- The pointer leaves the canvas. -/
def exit (v : View R S) : Outcome (View R S) :=
  let (hover, events) := v.hover.leave v.graph
  { value := { v.release with hover }, events }

end TunnelMap.View
