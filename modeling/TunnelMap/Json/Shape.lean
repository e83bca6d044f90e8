import TunnelMap.Decimal.Shortest
import TunnelMap.Json.Draft
import TunnelMap.Text.Quoted

/-! What can be wrong with JSON that is read as data, and the readers of single values. -/

namespace TunnelMap

/-- A value of the wrong shape. -/
inductive ShapeError where
  | invalidType (found : Found) (expected : String)
  | invalidValue (found : Found) (expected : String)
  | invalidLength (length : Nat) (expected : String)
  | unknownVariant (name : String) (known : List String)
  | duplicateField (name : String)
  | missingField (name : String)
  deriving DecidableEq, Repr

inductive ReadError where
  | text (fault : Fault)
  | shape (error : ShapeError)
  deriving DecidableEq, Repr

abbrev Reads (α : Type) := Except ReadError α

/-- A value in the words of messages. -/
def Found.text : Found → String
  | .null => "null"
  | .bool b => "boolean `" ++ toString b ++ "`"
  | .whole i => "integer `" ++ toString i ++ "`"
  | .float x => "floating point `" ++ Decimal.pointed x ++ "`"
  | .string s => "string " ++ Text.quoted s
  | .sequence => "sequence"
  | .map => "map"

def ShapeError.message : ShapeError → String
  | .invalidType found expected => "invalid type: " ++ found.text ++ ", expected " ++ expected
  | .invalidValue found expected => "invalid value: " ++ found.text ++ ", expected " ++ expected
  | .invalidLength n expected => "invalid length " ++ toString n ++ ", expected " ++ expected
  | .unknownVariant name known =>
    "unknown variant `" ++ name ++ "`, expected " ++
      String.intercalate " or " (known.map fun k => "`" ++ k ++ "`")
  | .duplicateField name => "duplicate field `" ++ name ++ "`"
  | .missingField name => "missing field `" ++ name ++ "`"

/-- An error in the words of messages. What a fault says depends on where in the text it lies, which is not
kept: here its words end before that. -/
def ReadError.message : ReadError → String
  | .shape e => e.message
  | .text .truncated => "EOF while parsing"
  | .text .malformed => ""

def Json.found : Json → Found
  | .null => .null
  | .bool b => .bool b
  | .number (.whole i) => .whole i
  | .number (.float x) => .float x
  | .string s => .string s
  | .array _ => .sequence
  | .object _ => .map

namespace Draft

/-- The error of a reader that cannot take a value. -/
def mismatch (d : Draft) (expected : String) : ReadError :=
  match d.found with
  | .ok found => .shape (.invalidType found expected)
  | .error fault => .text fault

def readString : Draft → Reads String
  | .string s => .ok s
  | d => .error (d.mismatch "a string")

/-- Reads a number; a whole one is rounded. -/
def readFloat : Draft → Reads Float
  | .number n => .ok n.toFloat
  | d => .error (d.mismatch "f64")

/-- Reads a list whose items are all read alike. -/
def readList {α : Type} (read : Draft → Reads α) : Draft → Reads (List α)
  | .array items ending => do
    let xs ← items.mapM read
    ending.read.mapError .text
    return xs
  | d => .error (d.mismatch "a sequence")

end Draft

namespace Json

/-- The error of a reader that cannot take a value. -/
def mismatch (j : Json) (expected : String) : ReadError :=
  .shape (.invalidType j.found expected)

def readString : Json → Reads String
  | .string s => .ok s
  | j => .error (j.mismatch "a string")

/-- Reads a string or nothing. -/
def readString? : Json → Reads (Option String)
  | .null => .ok none
  | j => some <$> j.readString

def readStrings : Json → Reads (List String)
  | .array items => items.mapM readString
  | j => .error (j.mismatch "a sequence")

/-- Reads a word of 32 bits or nothing. -/
def readWord? : Json → Reads (Option UInt32)
  | .null => .ok none
  | .number (.whole i) =>
    if 0 ≤ i ∧ i.toNat < UInt32.size then .ok (some (UInt32.ofNat i.toNat))
    else .error (.shape (.invalidValue (.whole i) "u32"))
  | j => .error (j.mismatch "u32")

end Json

end TunnelMap
