import TunnelMap.Layout.Repulsion
import TunnelMap.Page.MapCanvas
import TunnelMap.Snapshot.Reader
import TunnelMap.Tuning.Reader

/-! The page that shows the map of the snapshot written into it. A snapshot that is missing or
cannot be read counts as empty, and a tuning as standard; each falls back by itself. -/

namespace TunnelMap

/-- An element of the page with its text. -/
structure PageElement where
  isScript : Bool
  text : String

structure Site where
  map : MapCanvas Float Float32
  selected : Option NodeId

namespace Site

/-- The text of the script with an id. -/
def script? (elements : List (String × PageElement)) (id : String) : Option String := do
  let e ← elements.lookup id
  if e.isScript then some e.text else none

/-- What a script holds, if it can be read, and what there is to say. -/
def load? {α : Type} (read : Draft → Reads α) (elements : List (String × PageElement))
    (id : String) : Option α × List Notice :=
  match script? elements id with
  | none => (none, [])
  | some text =>
    match readText read text with
    | .ok a => (some a, [])
    | .error e => (none, [.unreadable id e])

def loadSnapshot (elements : List (String × PageElement)) : Snapshot × List Notice :=
  match load? Snapshot.read elements "topology-data" with
  | (some s, notices) => (s, notices ++ [.snapshotLoaded s.nodes.length s.edges.length])
  | (none, notices) => ({}, notices)

def loadTuning (elements : List (String × PageElement)) : Tuning Float × List Notice :=
  let (t, notices) := load? Tuning.read elements "topology-config"
  (t.getD .standard, notices)

/-- The site hears of hovered and clicked nodes. -/
def settings (tuning : Tuning Float) : MapSettings Float :=
  { tuning
    sizing := .standard
    theme := .standard
    callbacks := { linkHovered := false }
    fullscreen := true
    width := none
    height := none }

/-- What the selection says. -/
def selection (s : Site) : String :=
  match s.selected with
  | some id => "Selected: " ++ id.text
  | none => ""

/-- What the site does about an event. -/
def hear (s : Site) : Event → Site × List Notice
  | .nodeHovered (some id) => (s, [.hovering id])
  | .nodeClicked id => ({ s with selected := some id }, [])
  | _ => (s, [])

/-- What the site does about all events, in order. -/
def hearAll (s : Site) : List Event → Site × List Notice
  | [] => (s, [])
  | e :: es =>
    let (s, notices) := s.hear e
    let (s, more) := s.hearAll es
    (s, notices ++ more)

/-- Takes an outcome of the map. -/
def takeOutcome (s : Site) (o : Outcome (MapCanvas Float Float32)) : Site × List Notice :=
  let (s, notices) := { s with map := o.value }.hearAll o.events
  (s, o.notices ++ notices)

/-- Opens the page. -/
def open? (surroundings : Surroundings Float) (elements : List (String × PageElement)) :
    Option (Site × List Notice) := do
  let (snapshot, said) := loadSnapshot elements
  let (tuning, warned) := loadTuning elements
  let o ← (MapCanvas.fresh (settings tuning) surroundings).deliver? snapshot
  return (⟨o.value, none⟩, .loggingStarted :: (said ++ warned ++ o.notices))

/-- The elements of the page. -/
def markup (s : Site) : List Markup :=
  [.element "Html" [("attr:lang", "en"), ("attr:dir", "ltr"), ("attr:data-theme", "dark")] [],
    .element "Title" [("text", "Overlay Topology")] [],
    .element "Meta" [("charset", "UTF-8")] [],
    .element "Meta"
      [("name", "viewport"), ("content", "width=device-width, initial-scale=1.0")] [],
    .element "div" [("class", "fullscreen-graph")]
      [MapCanvas.markup,
        .element "div" [("class", "graph-overlay")]
          [.element "h1" [] [.text "Overlay Topology"],
            .element "p" [("class", "subtitle")]
              [.text "Drag nodes to reposition. Scroll to zoom. Drag background to pan."],
            .element "p" [("class", "selection")] [.dynamic s.selection]]]]

end Site

end TunnelMap
