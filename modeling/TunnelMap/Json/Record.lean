import TunnelMap.Json.Shape

/-! Records in JSON. A record is written as an object with named fields, or as an array of its
fields in order; both forms are read by one table of fields. -/

namespace TunnelMap

/-- A field by its name, its other names, and its effect on what is being built. -/
structure Field (source σ : Type) where
  name : String
  aliases : List String
  read : source → σ → Reads σ

namespace Field

variable {source σ : Type}

def answers (f : Field source σ) (key : String) : Bool := f.name == key || f.aliases.contains key

/-- The field that a key names. -/
def named? (fields : List (Field source σ)) (key : String) : Option (Field source σ) :=
  fields.find? (·.answers key)

/-- The first field whose name is not among those seen. -/
def missing? (fields : List (Field source σ)) (seen : List String) :
    Option (Field source σ) :=
  fields.find? fun f => !seen.contains f.name

end Field

/-- What is being built, and the names of the fields that were given. -/
structure Partial (σ : Type) where
  value : σ
  seen : List String

namespace Partial

variable {source σ : Type}

/-- Reads one field, which must not have been given before. -/
def take (p : Partial σ) (f : Field source σ) (d : source) : Reads (Partial σ) :=
  if p.seen.contains f.name then .error (.shape (.duplicateField f.name))
  else do return ⟨← f.read d p.value, f.name :: p.seen⟩

/-- Fails at the first of the fields that was not given. -/
def require (p : Partial σ) (fields : List (Field source σ)) : Reads Unit :=
  match Field.missing? fields p.seen with
  | some f => .error (.shape (.missingField f.name))
  | none => .ok ()

end Partial

/-- A record: what messages call it, its fields in order, and whether all must be given. -/
structure Record (σ : Type) where
  title : String
  fields : List (Field Draft σ)
  complete : Bool

namespace Record

variable {σ : Type}

/-- Reads named fields in the order of the text; unknown ones are passed over. -/
def readNamed (r : Record σ) : Draft.Entries → Partial σ → Reads (Partial σ)
  | [], p => .ok p
  | (name, d) :: rest, p => do
    let name ← name.mapError .text
    match Field.named? r.fields name with
    | some f => r.readNamed rest (← p.take f d)
    | none =>
      d.skip.mapError .text
      r.readNamed rest p

/-- Reads the fields that are left from the items that are left, `n` items being read. No item may stand
behind the last field. -/
def readInOrder (r : Record σ) (ending : Draft.Ending) :
    (n : Nat) → List (Field Draft σ) → List Draft → σ → Reads σ
  | n, f :: fs, d :: ds, s => do r.readInOrder ending (n + 1) fs ds (← f.read d s)
  | n, _ :: _, [], s => do
    ending.read.mapError .text
    if r.complete then
      throw (.shape (.invalidLength n
        (r.title ++ " with " ++ toString r.fields.length ++ " elements")))
    return s
  | _, [], [], s => do
    ending.read.mapError .text
    return s
  | _, [], _ :: _, _ => .error (.text .malformed)

/-- Reads a record in either form, over the values of `initial`. -/
def read (r : Record σ) (initial : σ) : Draft → Reads σ
  | .object entries ending => do
    let p ← r.readNamed entries ⟨initial, []⟩
    ending.read.mapError .text
    if r.complete then p.require r.fields
    return p.value
  | .array items ending => r.readInOrder ending 0 r.fields items initial
  | d => .error (d.mismatch r.title)

end Record

/-- An object that keeps the fields that it does not know. Its own fields come first; all
others are kept as they are until the object ends, and then tried as attributes. -/
structure OpenRecord (σ : Type) where
  title : String
  fields : List (Field Draft σ)
  required : List (Field Draft σ)
  attributes : List (Field Json σ)
  /-- Keeps a field that is no attribute. -/
  keep : String → Json → σ → σ

namespace OpenRecord

variable {σ : Type}

/-- How deep a kept value may nest: the object itself is the third level of a text. -/
def room : Nat := 124

/-- Reads the own fields; the others are returned in the order of the text. -/
def readOwn (r : OpenRecord σ) : Draft.Entries → Partial σ → Reads (Partial σ × Json.Fields)
  | [], p => .ok (p, [])
  | (name, d) :: rest, p => do
    let name ← name.mapError .text
    match Field.named? r.fields name with
    | some f => r.readOwn rest (← p.take f d)
    | none =>
      let j ← (d.toJson room).mapError .text
      let (p, kept) ← r.readOwn rest p
      return (p, (name, j) :: kept)

/-- Reads the attributes among the other fields, and keeps the rest. -/
def readAttributes (r : OpenRecord σ) : Json.Fields → Partial σ → Reads (Partial σ)
  | [], p => .ok p
  | (name, j) :: rest, p =>
    match Field.named? r.attributes name with
    | some f => do r.readAttributes rest (← p.take f j)
    | none => r.readAttributes rest { p with value := r.keep name j p.value }

def read (r : OpenRecord σ) (initial : σ) : Draft → Reads σ
  | .object entries ending => do
    let (p, others) ← r.readOwn entries ⟨initial, []⟩
    ending.read.mapError .text
    p.require r.required
    let p ← r.readAttributes others p
    return p.value
  | d => .error (d.mismatch r.title)

end OpenRecord

end TunnelMap
