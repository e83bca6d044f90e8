import TunnelMap.Decimal.Shortest
import TunnelMap.Scalar.Binary
import TunnelMap.Snapshot.Basic

/-! Colors and the themes made of them. -/

namespace TunnelMap

/-- A color with the share of it that covers. -/
structure Color where
  r : UInt8
  g : UInt8
  b : UInt8
  alpha : Float := 1

namespace Color

def withAlpha (c : Color) (alpha : Float) : Color := { c with alpha }

/-- Changes each of the three channels. -/
def mapChannels (f : Float → Float) (c : Color) : Color :=
  { c with
    r := (f c.r.toFloat).toUInt8
    g := (f c.g.toFloat).toUInt8
    b := (f c.b.toFloat).toUInt8 }

/-- Towards white, by a share of the way. -/
def lighten (c : Color) (share : Float) : Color :=
  let f := Scalar.clamp 0 1 share
  c.mapChannels fun x => x + (255 - x) * f

/-- Towards black, by a share of the way. -/
def darken (c : Color) (share : Float) : Color :=
  let f := 1 - Scalar.clamp 0 1 share
  c.mapChannels fun x => x * f

def hexByte (b : UInt8) : String :=
  String.ofList [Nat.digitChar (b.toNat / 16), Nat.digitChar (b.toNat % 16)]

/-- The color in a style sheet: in hexadecimal as good as opaque, else by its parts. -/
def css (c : Color) : String :=
  if (c.alpha - 1).abs < 0.001 then "#" ++ hexByte c.r ++ hexByte c.g ++ hexByte c.b
  else
    "rgba(" ++ toString c.r ++ ", " ++ toString c.g ++ ", " ++ toString c.b ++ ", " ++
      Decimal.plain c.alpha ++ ")"

end Color

structure Theme (R : Type) where
  name : String
  background : Color
  host : Color
  interface : Color
  spoke : Color
  peer : Color
  /-- Highlighted edges of either kind. -/
  edgeHighlight : Color
  particle : Color
  hoverRing : Color
  neighborRing : Color
  label : Color
  address : Color
  /-- The opacity of all that is outside a highlight. -/
  dimAlpha : R

namespace Theme

variable {R : Type}

def node (t : Theme R) : NodeKind → Color
  | .host => t.host
  | .interface => t.interface

def edge (t : Theme R) : EdgeKind → Color
  | .spoke => t.spoke
  | .peer => t.peer

/-- Light on dark; hosts are darker than interfaces. -/
def standard [Scalar R] : Theme R where
  name := "default"
  background := { r := 22, g := 27, b := 34 }
  host := { r := 70, g := 98, b := 140 }
  interface := { r := 129, g := 161, b := 193 }
  spoke := { r := 140, g := 160, b := 180, alpha := 0.35 }
  peer := { r := 140, g := 160, b := 180, alpha := 0.7 }
  edgeHighlight := { r := 235, g := 203, b := 139 }
  particle := { r := 235, g := 203, b := 139 }
  hoverRing := { r := 255, g := 255, b := 255 }
  neighborRing := (Color.lighten { r := 129, g := 161, b := 193 } 0.5).withAlpha 0.8
  label := { r := 255, g := 255, b := 255, alpha := 0.9 }
  address := { r := 200, g := 210, b := 220, alpha := 0.75 }
  dimAlpha := 0.3

/-- Dark on light, for bright pages. -/
def light [Scalar R] : Theme R where
  name := "light"
  background := { r := 248, g := 249, b := 251 }
  host := { r := 33, g := 55, b := 90 }
  interface := { r := 120, g := 150, b := 190 }
  spoke := { r := 90, g := 100, b := 115, alpha := 0.35 }
  peer := { r := 90, g := 100, b := 115, alpha := 0.7 }
  edgeHighlight := { r := 214, g := 108, b := 36 }
  particle := { r := 214, g := 108, b := 36 }
  hoverRing := { r := 214, g := 108, b := 36 }
  neighborRing := { r := 214, g := 108, b := 36, alpha := 0.6 }
  label := Color.darken { r := 33, g := 55, b := 90 } 0.3
  address := { r := 60, g := 70, b := 85, alpha := 0.8 }
  dimAlpha := 0.25

end Theme

end TunnelMap
