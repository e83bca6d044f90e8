import TunnelMap.Graph.Build
import TunnelMap.View.Pointer

/-! All that can happen to a view, as one type, and the views that can come about. -/

namespace TunnelMap

/-- What can happen to a view. Points are on the screen. -/
inductive Operation (R S : Type) where
  | press (p : Point R)
  | point (p : Point R)
  | lift (p : Point R)
  | exit
  | zoom (p : Point R) (turn : R)
  | tick (dt : S)
  | resize (width height : R)
  | retune (tuning : Tuning R)
  | replace (graph : Graph)

namespace View

variable {R S : Type} [Scalar R] [Engine S] [Precision R S]

/-- Does an operation, unless some sizes are out of order at the zoom that it leads to. -/
def perform? (v : View R S) : Operation R S → Option (Outcome (View R S))
  | .press p => some { value := v.press p }
  | .point p => some (v.point p)
  | .lift p => some (v.lift p)
  | .exit => some v.exit
  | .zoom p turn => (v.zoomAt? p turn).map fun v => { value := v }
  | .tick dt => (v.tick? dt).map fun v => { value := v }
  | .resize width height => some { value := v.resize width height }
  | .retune tuning => some (v.retune tuning)
  | .replace g => some (v.replace g)

end View

end TunnelMap
