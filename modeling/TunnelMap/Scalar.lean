/-! The arithmetic that a map is laid out and drawn with. Every geometric definition is
written once over `Scalar`, so what runs in binary floating point and what is said about
exact numbers is the same text. -/

namespace TunnelMap

/-- The operations of geometry. No law is asked for: binary floating point has few. -/
class Scalar (α : Type) extends Add α, Sub α, Mul α, Div α, Neg α, LT α, LE α, BEq α where
  decidableLT : DecidableLT α
  decidableLE : DecidableLE α
  ofNat : Nat → α
  /-- The decimal `m · 10^e`, or `m · 10^-e` when the flag is set. -/
  ofDecimal : (m : Nat) → (shrink : Bool) → (e : Nat) → α
  sqrt : α → α
  cos : α → α
  sin : α → α
  /-- The natural logarithm. -/
  ln : α → α
  /-- The greatest whole number not above the argument. -/
  floor : α → α
  pi : α
  /-- The natural logarithm of two. -/
  ln2 : α
  /-- A bound that no number exceeds. -/
  infinity : α
  /-- The whole part as a word, held to the range of words. -/
  toWord : α → UInt32

/-- Two precisions: `R` keeps positions, `S` moves bodies. -/
class Precision (R S : Type) where
  narrow : R → S
  widen : S → R

export Precision (narrow widen)

namespace Scalar

variable {α : Type} [Scalar α]

instance (priority := 50) (x y : α) : Decidable (x < y) := decidableLT x y

instance (priority := 50) (x y : α) : Decidable (x ≤ y) := decidableLE x y

instance (priority := 50) (n : Nat) : OfNat α n := ⟨ofNat n⟩

instance (priority := 50) : OfScientific α := ⟨ofDecimal⟩

/-- The larger of two; an operand that differs from itself is passed over. -/
def max (x y : α) : α := if x < y then y else if x == x then x else y

/-- The smaller of two; an operand that differs from itself is passed over. -/
def min (x y : α) : α := if y < x then y else if x == x then x else y

/-- Held between two bounds that are in order. -/
def clamp (lo hi x : α) : α := if x < lo then lo else if hi < x then hi else x

/-- Held between two bounds, provided that they are in order. -/
def clamp? (lo hi x : α) : Option α := if lo ≤ hi then some (clamp lo hi x) else none

/-- The whole part, towards zero. -/
def trunc (x : α) : α := if x < 0 then -floor (-x) else floor x

/-- A number less its whole part; it has the number's sign. -/
def fract (x : α) : α := x - trunc x

/-- The remainder by one, counted from below: it is never negative. -/
def mod1 (x : α) : α :=
  let r := fract x
  if r < 0 then r + 1 else r

/-- The sum of a list, from the left. -/
def sum (xs : List α) : α := xs.foldl (· + ·) 0

end Scalar

end TunnelMap
