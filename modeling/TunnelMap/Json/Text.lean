import TunnelMap.Decimal.Literal
import TunnelMap.Json.Draft

/-! Reading text as a draft. Blanks are the space, the tab, the line feed and the carriage
return. Each scanner returns what it found together with the rest of the text, or with the
fault that ends the reading there. -/

namespace TunnelMap.Draft

abbrev Chars := List Char

def isBlank (c : Char) : Bool := c == ' ' || c == '\t' || c == '\n' || c == '\r'

def skipBlanks (cs : Chars) : Chars := cs.dropWhile isBlank

/-- What is missing when the text ends here, and what is wrong when it goes on. -/
def faultAt : Chars → Fault
  | [] => .truncated
  | _ :: _ => .malformed

/-! ### Strings -/

def hexDigit? (c : Char) : Option Nat :=
  if '0' ≤ c ∧ c ≤ '9' then some (c.toNat - '0'.toNat)
  else if 'a' ≤ c ∧ c ≤ 'f' then some (c.toNat - 'a'.toNat + 10)
  else if 'A' ≤ c ∧ c ≤ 'F' then some (c.toNat - 'A'.toNat + 10)
  else none

/-- The value of four hexadecimal digits. -/
def hex? (a b c d : Char) : Option Nat := do
  return (((← hexDigit? a) * 16 + (← hexDigit? b)) * 16 + (← hexDigit? c)) * 16 + (← hexDigit? d)

/-- The character of an escape of one letter. -/
def escape? : Char → Option Char
  | '"' => some '"'
  | '\\' => some '\\'
  | '/' => some '/'
  | 'b' => some '\x08'
  | 'f' => some '\x0c'
  | 'n' => some '\n'
  | 'r' => some '\r'
  | 't' => some '\t'
  | _ => none

/-- A string so far, read backwards: the first fault of reading it stays. -/
structure Spelled where
  read : Except Fault Chars
  /-- A first half of a pair of surrogates that waits for the second. -/
  pending : Option Nat

namespace Spelled

def fail (s : Spelled) (fault : Fault) : Spelled :=
  match s.read with
  | .ok _ => ⟨.error fault, none⟩
  | .error _ => s

/-- Adds a character; one that follows half a pair is out of place. -/
def push (s : Spelled) (c : Char) : Spelled :=
  match s.pending with
  | some _ => s.fail .malformed
  | none => { s with read := s.read.map (c :: ·) }

/-- Adds the character of a code unit, or waits for the other half of a pair. -/
def pushUnit (s : Spelled) (n : Nat) : Spelled :=
  match s.pending with
  | some high =>
    if 0xDC00 ≤ n ∧ n ≤ 0xDFFF then
      ⟨s.read.map (Char.ofNat ((high - 0xD800) * 0x400 + (n - 0xDC00) + 0x10000) :: ·), none⟩
    else s.fail .malformed
  | none =>
    if 0xDC00 ≤ n ∧ n ≤ 0xDFFF then s.fail .malformed
    else if 0xD800 ≤ n ∧ n ≤ 0xDBFF then { s with pending := some n }
    else s.push (Char.ofNat n)

/-- The fault of a string that breaks off. -/
def broken (s : Spelled) (fault : Fault) : Break :=
  match s.read with
  | .ok _ => .same fault
  | .error first => { Break.same first with skip := fault }

def close (s : Spelled) : Except Fault String :=
  match s.pending, s.read with
  | some _, .ok _ => .error .malformed
  | _, read => read.map fun cs => String.ofList cs.reverse

end Spelled

/-- The fault of fewer than four characters behind `\u`: four bytes are enough to be wrong. -/
def shortHexFault (cs : Chars) : Fault :=
  if 4 ≤ (String.ofList cs).utf8ByteSize then .malformed else .truncated

/-- A string behind its opening quote: what it reads as and the rest of the text. -/
def spell : Chars → Spelled → Except Break (Except Fault String × Chars)
  | [], s => .error (s.broken .truncated)
  | '"' :: cs, s => .ok (s.close, cs)
  | '\\' :: 'u' :: a :: b :: c :: d :: cs, s =>
    match hex? a b c d with
    | some n => spell cs (s.pushUnit n)
    | none => .error (s.broken .malformed)
  | '\\' :: 'u' :: cs, s => .error (s.broken (shortHexFault cs))
  | '\\' :: c :: cs, s =>
    match escape? c with
    | some e => spell cs (s.push e)
    | none => .error (s.broken .malformed)
  | '\\' :: [], s => .error (s.broken .truncated)
  | c :: cs, s =>
    if c.toNat < 0x20 then .error (s.broken .malformed) else spell cs (s.push c)

def scanString (cs : Chars) : Except Break (Except Fault String × Chars) :=
  spell cs ⟨.ok [], none⟩

/-! ### Numbers -/

def digit? (c : Char) : Option Nat := if c.isDigit then some (c.toNat - '0'.toNat) else none

/-- The digits at the front and what follows them. -/
def digits : Chars → List Nat × Chars
  | [] => ([], [])
  | c :: cs =>
    match digit? c with
    | some d => ((digits cs).1.cons d, (digits cs).2)
    | none => ([], c :: cs)

/-- A number that lacks a digit. A reader that passes over it does not tell the end of the
text from a wrong character. -/
def numberBreak (cs : Chars) : Break := { Break.same .malformed with read := faultAt cs }

/-- The digits of the whole part, without leading zeros. -/
def wholePart (cs : Chars) : Except Break (List Nat × Chars) :=
  match digits cs with
  | ([], rest) => .error (numberBreak rest)
  | (0 :: _ :: _, _) => .error (.same .malformed)
  | (ds, rest) => .ok (ds, rest)

/-- The digits behind a point, if there is one. -/
def places : Chars → Except Break (Option (List Nat) × Chars)
  | '.' :: cs =>
    match digits cs with
    | ([], rest) => .error (numberBreak rest)
    | (ds, rest) => .ok (some ds, rest)
  | cs => .ok (none, cs)

def unsign : Chars → Bool × Chars
  | '-' :: cs => (true, cs)
  | '+' :: cs => (false, cs)
  | cs => (false, cs)

/-- The exponent, if there is one. -/
def exponent : Chars → Except Break (Option Int × Chars)
  | [] => .ok (none, [])
  | c :: cs =>
    if c == 'e' || c == 'E' then
      let (negative, cs) := unsign cs
      match digits cs with
      | ([], rest) => .error (numberBreak rest)
      | (ds, rest) =>
        let n : Nat := ds.foldl (fun n d => n * 10 + d) 0
        .ok (some (if negative then -(n : Int) else n), rest)
    else .ok (none, c :: cs)

/-- The value of a number by its parts. Without point and exponent it is whole if it fits a
word, except that minus zero is not. -/
def numberValue (negative : Bool) (whole : List Nat) (behind : Option (List Nat))
    (power : Option Int) : Draft :=
  let l := Decimal.Literal.addPlaces (behind.getD []) (Decimal.Literal.ofWhole whole ⟨0, 0⟩)
  let l := { l with exponent := l.exponent + power.getD 0 }
  let float := match l.toFloat? with
    | some x => .number (.float (if negative then -x else x))
    | none => .unreadable .malformed
  if behind.isNone ∧ power.isNone ∧ l.exponent = 0 then
    if !negative then .number (.whole l.significand)
    else if 0 < l.significand ∧ l.significand ≤ Nat.pow 2 63 then .number (.whole (-l.significand))
    else float
  else float

/-- A number with its sign. -/
def scanNumber (cs : Chars) : Except Break (Draft × Chars) := do
  let (negative, cs) := match cs with
    | '-' :: cs => (true, cs)
    | cs => (false, cs)
  let (whole, cs) ← wholePart cs
  let (behind, cs) ← places cs
  let (power, cs) ← exponent cs
  return (numberValue negative whole behind power, cs)

/-! ### Values -/

/-- What is left of a word once its first letter is read. -/
def scanWord : (word cs : Chars) → Except Fault Chars
  | [], cs => .ok cs
  | _ :: _, [] => .error .truncated
  | w :: word, c :: cs => if w == c then scanWord word cs else .error .malformed

/-- The break of a word. A reader that takes no such word stops at its first letter. -/
def wordBreak (isNull : Bool) (fault : Fault) : Break :=
  { Break.same fault with
    choose := .malformed
    chooseOrNull := if isNull then fault else .malformed }

/-- A word for a value, behind its first letter. -/
def ofWord (value : Draft) (isNull : Bool) (word : String) (cs : Chars) :
    Draft × Except Fault Chars :=
  match scanWord word.toList cs with
  | .ok cs => (value, .ok cs)
  | .error fault => (.broken (wordBreak isNull fault), .error fault)

/-- A value and the rest of the text, or the fault that ends the reading with it. -/
abbrev Scanned (α : Type) := α × Except Fault Chars

def ofScan {α : Type} (value : α → Draft) : Except Break (α × Chars) → Scanned Draft
  | .ok (a, cs) => (value a, .ok cs)
  | .error b => (.broken b, .error b.skip)

/-- A name where a field begins. -/
def ofName : Except Fault String → Draft
  | .ok s => .string s
  | .error fault => .unreadable fault

/-- A value that is no string, array or object. -/
def scanAtom (c : Char) (cs : Chars) : Scanned Draft :=
  match c with
  | 'n' => ofWord .null true "ull" cs
  | 't' => ofWord (.bool true) false "rue" cs
  | 'f' => ofWord (.bool false) false "alse" cs
  | _ =>
    if c == '-' || c.isDigit then ofScan id (scanNumber (c :: cs))
    else (.broken (.same .malformed), .error .malformed)

mutual

/-- A value. The text bounds the steps. -/
def scanValue : (steps : Nat) → Chars → Scanned Draft
  | 0, _ => (.broken (.same .truncated), .error .truncated)
  | n + 1, cs =>
    match skipBlanks cs with
    | [] => (.broken (.same .truncated), .error .truncated)
    | '"' :: cs => ofScan ofName (scanString cs)
    | '[' :: cs =>
      match skipBlanks cs with
      | ']' :: cs => (.array [] .closed, .ok cs)
      | [] => (.array [] (.cut .truncated), .error .truncated)
      | cs =>
        let ((items, ending), rest) := scanItems n cs
        (.array items ending, rest)
    | '{' :: cs =>
      match skipBlanks cs with
      | '}' :: cs => (.object [] .closed, .ok cs)
      | cs =>
        let ((fields, ending), rest) := scanFields n cs
        (.object fields ending, rest)
    | c :: cs => scanAtom c cs

/-- The items of an array from one that must come. -/
def scanItems : (steps : Nat) → Chars → Scanned (List Draft × Ending)
  | 0, _ => (([], .cut .truncated), .error .truncated)
  | n + 1, cs =>
    match scanValue n cs with
    | (d, .error fault) => (([d], .cut fault), .error fault)
    | (d, .ok cs) =>
      match skipBlanks cs with
      | ']' :: cs => (([d], .closed), .ok cs)
      | ',' :: cs =>
        let ((items, ending), rest) := scanItems n cs
        ((d :: items, ending), rest)
      | cs => (([d], .cut (faultAt cs)), .error (faultAt cs))

/-- The fields of an object from one that must come. -/
def scanFields : (steps : Nat) → Chars → Scanned (Entries × Ending)
  | 0, _ => (([], .cut .truncated), .error .truncated)
  | n + 1, cs =>
    match skipBlanks cs with
    | [] => (([], .nameless (.same .truncated)), .error .truncated)
    | '"' :: cs =>
      match scanString cs with
      | .error b => (([], .nameless b), .error b.skip)
      | .ok (name, cs) =>
        match skipBlanks cs with
        | ':' :: cs =>
          match scanValue n cs with
          | (d, .error fault) => (([(name, d)], .cut fault), .error fault)
          | (d, .ok cs) =>
            match skipBlanks cs with
            | '}' :: cs => (([(name, d)], .closed), .ok cs)
            | ',' :: cs =>
              let ((fields, ending), rest) := scanFields n cs
              (((name, d) :: fields, ending), rest)
            | cs => (([(name, d)], .cut (faultAt cs)), .error (faultAt cs))
        | cs =>
          let fault := faultAt cs
          (([(name, .broken (.same fault))], .cut fault), .error fault)
    | _ :: _ => (([], .nameless (.same .malformed)), .error .malformed)

end

/-- The draft of a text, and whether only blanks follow the value. -/
def ofText (text : String) : Draft × Bool :=
  let cs := text.toList
  let (d, rest) := scanValue (2 * cs.length + 2) cs
  (d, match rest with
    | .ok cs => (skipBlanks cs).isEmpty
    | .error _ => true)

end TunnelMap.Draft
