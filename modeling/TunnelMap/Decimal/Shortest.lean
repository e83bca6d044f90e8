/-! The shortest decimal that reads back as a given binary number. A number is decoded to
`m · 2^e`, and the decimals that round to it fill an interval with the same centre. Grids of
falling powers of ten are tried until one has a point in the interval: of the two neighbours
of the number on that grid the nearer is taken, and on a tie the one that the format
prefers. -/

namespace TunnelMap.Decimal

/-- The decimal `digits · 10^exponent`. -/
structure Shortest where
  digits : Nat
  exponent : Int
  deriving DecidableEq, Repr

/-- Which of two equally near decimals a format prefers. -/
inductive Tie where
  | up
  | even
  deriving DecidableEq, Repr

/-- The numbers that round to one binary number, in units of `2^exponent`. -/
structure Interval where
  low : Nat
  centre : Nat
  high : Nat
  exponent : Int
  /-- Whether the ends themselves round to the number. -/
  closed : Bool
  deriving DecidableEq, Repr

namespace Interval

/-- The interval of the positive number whose exponent field is `field` and whose fraction
field is `fraction`. The gap below a power of two is half the gap above. -/
def ofFields (field fraction : Nat) : Interval :=
  let m := if field = 0 then fraction else fraction + Nat.pow 2 52
  let below := if fraction = 0 ∧ 1 < field then 1 else 2
  { low := 4 * m - below
    centre := 4 * m
    high := 4 * m + 2
    exponent := (if field = 0 then 1 else (field : Int)) - 1077
    closed := m % 2 == 0 }

/-- Whether `x`, in the unit that `scale` of makes the interval's own, lies inside. -/
def contains (i : Interval) (scale x : Nat) : Bool :=
  if i.closed then i.low * scale ≤ x && x ≤ i.high * scale
  else i.low * scale < x && x < i.high * scale

/-- The factors that bring the grid of `10^p` and the unit of the interval to one measure. -/
def factors (i : Interval) (p : Int) : Nat × Nat :=
  (Nat.pow 10 p.toNat * Nat.pow 2 (-i.exponent).toNat,
    Nat.pow 2 i.exponent.toNat * Nat.pow 10 (-p).toNat)

/-- The nearer to `x` of two neighbours on a grid. -/
def nearer (tie : Tie) (grid x down : Nat) : Nat :=
  let below := x - down * grid
  let above := (down + 1) * grid - x
  if below < above then down
  else if above < below then down + 1
  else
    match tie with
    | .up => down + 1
    | .even => if down % 2 = 0 then down else down + 1

/-- The point of the grid of `10^p` that stands for the interval, if it has one inside. -/
def pointOn (tie : Tie) (i : Interval) (p : Int) : Option Nat :=
  let (grid, unit) := i.factors p
  let x := i.centre * unit
  let down := x / grid
  let up := down + 1
  match i.contains unit (down * grid), i.contains unit (up * grid) with
  | true, true => some (nearer tie grid x down)
  | true, false => some down
  | false, true => some up
  | false, false => none

/-- Tries `n + 1` grids from that of `10^p` downwards. -/
def search (tie : Tie) (i : Interval) : (n : Nat) → (p : Int) → Shortest
  | 0, p => ⟨(i.pointOn tie p).getD 0, p⟩
  | n + 1, p =>
    match i.pointOn tie p with
    | some d => ⟨d, p⟩
    | none => i.search tie n (p - 1)

/-- A power of ten that is above the interval. -/
def above (i : Interval) : Int := ((i.high.log2 + i.exponent + 1) * 30103).fdiv 100000 + 1

/-- Twenty grids reach the seventeenth digit, where every interval has a point. -/
def shortest (tie : Tie) (i : Interval) : Shortest := i.search tie 20 i.above

end Interval

/-- A binary number by its parts. -/
inductive Parts where
  | nan
  | infinite (negative : Bool)
  | zero (negative : Bool)
  | finite (negative : Bool) (size : Shortest)

def parts (tie : Tie) (x : Float) : Parts :=
  let bits := x.toBits.toNat
  let negative := bits / Nat.pow 2 63 == 1
  let field := bits / Nat.pow 2 52 % Nat.pow 2 11
  let fraction := bits % Nat.pow 2 52
  if field = 2047 then if fraction = 0 then .infinite negative else .nan
  else if field = 0 ∧ fraction = 0 then .zero negative
  else .finite negative ((Interval.ofFields field fraction).shortest tie)

def sign (negative : Bool) : String := if negative then "-" else ""

def zeros (n : Nat) : String := String.ofList (List.replicate n '0')

/-- The digits with the point in its place and no exponent; whole numbers end in `tail`. -/
def Shortest.positional (s : Shortest) (tail : String) : String :=
  let text := toString s.digits
  if 0 ≤ s.exponent then text ++ zeros s.exponent.toNat ++ tail
  else
    let places := (-s.exponent).toNat
    if places < text.length then
      String.ofList (text.toList.take (text.length - places)) ++ "." ++
        String.ofList (text.toList.drop (text.length - places))
    else "0." ++ zeros (places - text.length) ++ text

/-- The digits with the point after the first and a power of ten, which is written with its
sign. -/
def Shortest.scientific (s : Shortest) : String :=
  let text := toString s.digits
  let mantissa := match text.toList with
    | d :: e :: rest => String.ofList (d :: '.' :: e :: rest)
    | _ => text
  let power := s.exponent + text.length - 1
  mantissa ++ (if 0 ≤ power then "e+" else "e") ++ toString power

/-- The plain text of a number: no exponent, no trailing `.0`, and upwards on a tie. -/
def plain (x : Float) : String :=
  match parts .up x with
  | .nan => "NaN"
  | .infinite negative => sign negative ++ "inf"
  | .zero negative => sign negative ++ "0"
  | .finite negative size => sign negative ++ size.positional ""

/-- The text of a number that shows it as not whole: always a point or an exponent, and an
exponent from `1e+16` up and below `1e-5`. On a tie it ends in an even digit. -/
def pointed (x : Float) : String :=
  match parts .even x with
  | .nan => "NaN"
  | .infinite negative => sign negative ++ "inf"
  | .zero negative => sign negative ++ "0.0"
  | .finite negative size =>
    let place := size.exponent + (toString size.digits).length
    sign negative ++ if -5 < place ∧ place ≤ 16 then size.positional ".0" else size.scientific

end TunnelMap.Decimal
