import TunnelMap.Json.Shape
import TunnelMap.Snapshot.Basic

/-! What the map has to say about its own work: notices, each of one level and one wording. -/

namespace TunnelMap

/-- Why a snapshot has no graph. -/
inductive BuildError where
  | duplicateNode (id : NodeId)
  | duplicateEdge (id : EdgeId)
  deriving DecidableEq, Repr

def BuildError.message : BuildError → String
  | .duplicateNode id => "duplicate node id `" ++ id.text ++ "` in snapshot"
  | .duplicateEdge id => "duplicate edge id `" ++ id.text ++ "` in snapshot"

inductive Level where
  | debug
  | info
  | warn
  | error
  deriving DecidableEq, Repr

def Level.text : Level → String
  | .debug => "DEBUG"
  | .info => "INFO"
  | .warn => "WARN"
  | .error => "ERROR"

inductive Notice where
  /-- An edge at a host was given as a tunnel. -/
  | peerIgnored (edge : EdgeId)
  | edgesDropped (count : Nat)
  | physicsApplied (nodes edges : Nat)
  | reheated
  | positionsCarried (count : Nat)
  | mounted (nodes edges : Nat)
  | replaced (nodes edges : Nat)
  | pinned (node : Nat)
  | rejected (error : BuildError)
  | canvasUnavailable
  | loggingStarted
  | snapshotLoaded (nodes edges : Nat)
  /-- The text of an element is not what it should be. -/
  | unreadable (element : String) (error : ReadError)
  | hovering (node : NodeId)
  deriving DecidableEq, Repr

namespace Notice

def level : Notice → Level
  | .mounted .. | .replaced .. | .loggingStarted | .snapshotLoaded .. => .info
  | .unreadable .. => .warn
  | .rejected _ | .canvasUnavailable => .error
  | _ => .debug

def counts (nodes edges : Nat) : String :=
  toString nodes ++ " nodes, " ++ toString edges ++ " edges"

def message : Notice → String
  | .peerIgnored e => "topology: edge " ++ e.text ++ " touches a host, ignoring explicit peer kind"
  | .edgesDropped n =>
    "topology: dropped " ++ toString n ++ " edges with endpoints outside the snapshot"
  | .physicsApplied n e => "topology: applied physics to " ++ counts n e
  | .reheated => "topology: simulation reheated"
  | .positionsCarried n =>
    "topology: carried " ++ toString n ++ " node positions into new layout"
  | .mounted n e => "topology: mounted " ++ counts n e
  | .replaced n e => "topology: snapshot replaced, " ++ counts n e
  | .pinned n => "topology: node " ++ toString n ++ " pinned after drag"
  | .rejected e => "topology: rejected snapshot: " ++ e.message
  | .canvasUnavailable => "topology: canvas 2d context unavailable"
  | .loggingStarted => "overlay-topology: logging initialized"
  | .snapshotLoaded n e => "overlay-topology: loaded " ++ counts n e
  | .unreadable element e => "overlay-topology: failed to parse #" ++ element ++ ": " ++ e.message
  | .hovering id => "overlay-topology: hovering " ++ id.text

/-- The line of a notice in a log. -/
def line (n : Notice) : String := n.level.text ++ " " ++ n.message

end Notice

end TunnelMap
