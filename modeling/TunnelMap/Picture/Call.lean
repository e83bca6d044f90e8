import TunnelMap.Geometry.Point
import TunnelMap.Sizing
import TunnelMap.Theme

/-! The calls that draw a picture on a canvas. -/

namespace TunnelMap

inductive Call (R : Type) where
  | fillStyle (color : Color)
  | strokeStyle (color : Color)
  | globalAlpha (alpha : R)
  | lineWidth (width : R)
  | textAlign (side : String)
  | textBaseline (line : String)
  | font (font : Font R)
  | save
  | restore
  | beginPath
  | stroke
  | fill
  | fillRect (corner : Point R) (width height : R)
  | moveTo (p : Point R)
  | lineTo (p : Point R)
  | translate (x y : R)
  | scale (x y : R)
  | quadraticCurveTo (control p : Point R)
  | arc (center : Point R) (radius start stop : R)
  | fillText (text : String) (p : Point R)

namespace Call

variable {R : Type} [Scalar R]

/-- A full circle. -/
def circle (center : Point R) (radius : R) : Call R := .arc center radius 0 (2 * Scalar.pi)

end Call

/-- The text of a font in a style sheet. -/
def Font.css (f : Font Float) : String := Decimal.plain f.size ++ "px " ++ f.family

end TunnelMap
