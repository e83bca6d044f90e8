import TunnelMap.Json.Basic

/-! Snapshots of an overlay network: the hosts, the tunnel interfaces on them, and the edges
between them, as they are delivered. Nothing in a snapshot is checked against the rest. -/

namespace TunnelMap

structure NodeId where
  text : String
  deriving DecidableEq, Repr

structure EdgeId where
  text : String
  deriving DecidableEq, Repr

inductive NodeKind where
  /-- A machine, the hub of its interfaces. -/
  | host
  /-- A tunnel interface on a host. -/
  | interface
  deriving DecidableEq, Repr

inductive EdgeKind where
  /-- An attachment: at least one end is a host. -/
  | spoke
  /-- A tunnel between two interfaces. -/
  | peer
  deriving DecidableEq, Repr

/-- Hubs are what other nodes attach to. -/
def NodeKind.isHub : NodeKind → Bool
  | .host => true
  | .interface => false

/-- The kind of an edge by the kinds of its ends. -/
def EdgeKind.between (a b : NodeKind) : EdgeKind :=
  if a.isHub || b.isHub then .spoke else .peer

/-- What is shown of a node, and all that is not understood of it. -/
structure NodeAttrs where
  name : Option String := none
  address : Option String := none
  extra : Json.Fields := []

structure EdgeAttrs where
  /-- The address ranges that are routed through the tunnel. -/
  allowedIps : List String := []
  /-- Seconds between keepalive packets. -/
  keepalive : Option UInt32 := none
  extra : Json.Fields := []

/-- A node as it is delivered. -/
structure NodeEntry where
  id : NodeId
  kind : NodeKind
  attrs : NodeAttrs := {}

/-- An edge as it is delivered; its ends need not be in the snapshot. -/
structure EdgeEntry where
  id : EdgeId
  source : NodeId
  target : NodeId
  /-- A kind that counts only between two interfaces. -/
  kind : Option EdgeKind := none
  attrs : EdgeAttrs := {}

structure Snapshot where
  nodes : List NodeEntry := []
  edges : List EdgeEntry := []

end TunnelMap
