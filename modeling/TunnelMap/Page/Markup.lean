/-! The elements of a page. -/

namespace TunnelMap

inductive Markup where
  | element (tag : String) (attributes : List (String × String)) (children : List Markup)
  | text (text : String)
  /-- A text that follows the state of the page. -/
  | dynamic (text : String)

end TunnelMap
