/-! JSON values. An object is a list of named values in the order of the text, so repeated
names can be told apart; `insert` is what gives a later value precedence. -/

namespace TunnelMap

/-- A number keeps whether it was written as a whole number that fits a word. -/
inductive Number where
  | whole (value : Int)
  | float (value : Float)

namespace Number

def toFloat : Number → Float
  | .whole i => Float.ofInt i
  | .float x => x

end Number

inductive Json where
  | null
  | bool (value : Bool)
  | number (value : Number)
  | string (value : String)
  | array (items : List Json)
  | object (fields : List (String × Json))

namespace Json

instance : Inhabited Json := ⟨.null⟩

/-- Named values. -/
abbrev Fields := List (String × Json)

/-- The value of a name: the first that is listed. -/
def Fields.get? (fields : Fields) (name : String) : Option Json :=
  (fields.find? fun field => field.1 == name).map Prod.snd

/-- Gives a name a value, in the place of the value that it had. -/
def Fields.insert (name : String) (value : Json) : Fields → Fields
  | [] => [(name, value)]
  | field :: rest =>
    if field.1 == name then (name, value) :: rest else field :: Fields.insert name value rest

end Json

end TunnelMap
