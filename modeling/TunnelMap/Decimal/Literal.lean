/-! The value of a decimal literal. As many leading digits are kept as fit a word of 64 bits;
the kept digits are rounded to binary once, and then multiplied or divided by a power of
ten. -/

namespace TunnelMap.Decimal

/-- The decimal `significand · 10^exponent`. -/
structure Literal where
  significand : Nat
  exponent : Int
  deriving DecidableEq, Repr

namespace Literal

/-- The largest significand that is kept. -/
def limit : Nat := UInt64.size - 1

/-- The digits before the point: those that no longer fit count as powers of ten. -/
def ofWhole : List Nat → Literal → Literal
  | [], l => l
  | d :: ds, l =>
    if l.exponent = 0 ∧ l.significand * 10 + d ≤ limit then
      ofWhole ds ⟨l.significand * 10 + d, 0⟩
    else ofWhole ds ⟨l.significand, l.exponent + 1⟩

/-- The digits behind the point: the first that does not fit ends them. -/
def addPlaces : List Nat → Literal → Literal
  | [], l => l
  | d :: ds, l =>
    if l.significand * 10 + d ≤ limit then addPlaces ds ⟨l.significand * 10 + d, l.exponent - 1⟩
    else l

/-- The largest power of ten that is applied at once. -/
def step : Nat := 308

def tenTo (n : Nat) : Float := OfScientific.ofScientific 1 false n

/-- A number times a power of ten, if it stays finite. Powers below `10^-308` are applied in
steps, and two steps leave nothing of a word. -/
def scale : (steps : Nat) → Float → Int → Option Float
  | _, x, .ofNat e =>
    if x == 0 then some x
    else if e ≤ step then
      let y := x * tenTo e
      if y.isInf then none else some y
    else none
  | 0, _, .negSucc _ => some 0
  | n + 1, x, .negSucc e =>
    if e < step then some (x / tenTo (e + 1)) else scale n (x / tenTo step) (.negSucc (e - step))

/-- The value of a literal, unless it is too large. -/
def toFloat? (l : Literal) : Option Float :=
  scale 3 (Float.ofNat l.significand) l.exponent

end Literal

end TunnelMap.Decimal
