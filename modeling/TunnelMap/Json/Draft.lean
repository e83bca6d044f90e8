import TunnelMap.Json.Basic

/-! JSON text as far as it goes. A draft is the tree of a text that may stop being JSON
somewhere: there the tree holds the fault that a reader meets. Reading a draft from left to
right therefore finds the first error in the order of the text, be it one of form or of
content. -/

namespace TunnelMap

/-- How a text fails to be JSON. -/
inductive Fault where
  /-- A character that cannot stand where it stands, or a value that no reader holds. -/
  | malformed
  /-- The text ends too early. -/
  | truncated
  deriving DecidableEq, Repr

/-- What a value is, in the words of messages. -/
inductive Found where
  | null
  | bool (value : Bool)
  | whole (value : Int)
  | float (value : Float)
  | string (value : String)
  | sequence
  | map
  deriving DecidableEq, Repr

namespace Draft

/-- The fault of a value that breaks off, by what its reader is after. -/
structure Break where
  /-- For a reader of any value. -/
  read : Fault
  /-- For a reader that passes over the value. -/
  skip : Fault
  /-- For a reader that takes only a string or an object. -/
  choose : Fault
  /-- For a reader that takes only a string, an object or nothing. -/
  chooseOrNull : Fault
  deriving DecidableEq, Repr

/-- A break that is the same for all readers. -/
def Break.same (fault : Fault) : Break := ⟨fault, fault, fault, fault⟩

/-- How the items of an array or the fields of an object end. -/
inductive Ending where
  | closed
  /-- Neither a comma nor the closing bracket follows. -/
  | cut (fault : Fault)
  /-- No name stands where a field begins. -/
  | nameless (fault : Draft.Break)

end Draft

/-- A text read as JSON up to the place where it breaks off. -/
inductive Draft where
  | null
  | bool (value : Bool)
  | number (value : Number)
  | string (value : String)
  | array (items : List Draft) (ending : Draft.Ending)
  /-- A name with a fault can be passed over but not read. -/
  | object (fields : List (Except Fault String × Draft)) (ending : Draft.Ending)
  /-- A string or a number that can be passed over but not read. -/
  | unreadable (fault : Fault)
  | broken (fault : Draft.Break)

namespace Draft

/-- The fields of an object as they were read. -/
abbrev Entries := List (Except Fault String × Draft)

instance : Inhabited Draft := ⟨.null⟩

mutual

/-- The draft of a value. -/
def ofJson : Json → Draft
  | .null => .null
  | .bool b => .bool b
  | .number n => .number n
  | .string s => .string s
  | .array items => .array (ofItems items) .closed
  | .object fields => .object (ofFields fields) .closed

def ofItems : List Json → List Draft
  | [] => []
  | j :: js => ofJson j :: ofItems js

def ofFields : List (String × Json) → Entries
  | [] => []
  | (name, j) :: fields => (.ok name, ofJson j) :: ofFields fields

end

/-- What a value is, if so much of it can be read. -/
def found : Draft → Except Fault Found
  | .null => .ok .null
  | .bool b => .ok (.bool b)
  | .number (.whole i) => .ok (.whole i)
  | .number (.float x) => .ok (.float x)
  | .string s => .ok (.string s)
  | .array _ _ => .ok .sequence
  | .object _ _ => .ok .map
  | .unreadable fault => .error fault
  | .broken b => .error b.read

namespace Ending

/-- Reads the end of an array or object. -/
def read : Ending → Except Fault Unit
  | .closed => .ok ()
  | .cut fault => .error fault
  | .nameless b => .error b.read

/-- Passes over the end of an array or object. -/
def skip : Ending → Except Fault Unit
  | .closed => .ok ()
  | .cut fault => .error fault
  | .nameless b => .error b.skip

end Ending

mutual

/-- Passes over a value. -/
def skip : Draft → Except Fault Unit
  | .array items ending => do skipItems items; ending.skip
  | .object fields ending => do skipFields fields; ending.skip
  | .broken b => .error b.skip
  | _ => .ok ()

def skipItems : List Draft → Except Fault Unit
  | [] => .ok ()
  | d :: ds => do d.skip; skipItems ds

def skipFields : Entries → Except Fault Unit
  | [] => .ok ()
  | (_, d) :: fields => do d.skip; skipFields fields

end

mutual

/-- Reads a value of any shape, whose arrays and objects nest at most `room` deep. A name
that is given again takes the later value. -/
def toJson (room : Nat) : Draft → Except Fault Json
  | .null => .ok .null
  | .bool b => .ok (.bool b)
  | .number n => .ok (.number n)
  | .string s => .ok (.string s)
  | .array items ending =>
    if room = 0 then .error .malformed
    else do
      let js ← toItems (room - 1) items
      ending.read
      return .array js
  | .object fields ending =>
    if room = 0 then .error .malformed
    else do
      let js ← toFields (room - 1) [] fields
      ending.read
      return .object js
  | .unreadable fault => .error fault
  | .broken b => .error b.read

def toItems (room : Nat) : List Draft → Except Fault (List Json)
  | [] => .ok []
  | d :: ds => do
    let j ← d.toJson room
    return j :: (← toItems room ds)

def toFields (room : Nat) (sofar : Json.Fields) : Entries → Except Fault Json.Fields
  | [] => .ok sofar
  | (name, d) :: fields => do
    let name ← name
    let j ← d.toJson room
    toFields room (sofar.insert name j) fields

end

end Draft

end TunnelMap
