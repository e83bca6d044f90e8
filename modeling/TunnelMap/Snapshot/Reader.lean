import TunnelMap.Json.Record
import TunnelMap.Json.Text
import TunnelMap.Snapshot.Basic

/-! Reading snapshots from JSON. Nodes and edges are open records: what they do not know
of an entry is kept with it. -/

namespace TunnelMap

/-- A value by its name among those known. -/
def variant {α : Type} (known : List (String × α)) (name : String) : Reads α :=
  match known.lookup name with
  | some a => .ok a
  | none => .error (.shape (.unknownVariant name (known.map Prod.fst)))

namespace Draft

/-- The value that goes with a name when none is needed. -/
def readNothing : Draft → Reads Unit
  | .null => .ok ()
  | d => .error (d.mismatch "unit")

/-- The fault of something else where a name or an object must stand. -/
def choiceFault : Draft → Fault
  | .unreadable fault => fault
  | .broken b => b.choose
  | _ => .malformed

/-- Reads one of several names: a string, or an object with that one name. -/
def readVariant {α : Type} (known : List (String × α)) : Draft → Reads α
  | .string s => variant known s
  | .object ((name, d) :: rest) ending => do
    let a ← variant known (← name.mapError .text)
    d.readNothing
    match rest, ending with
    | [], .closed => return a
    | [], .cut fault => throw (.text fault)
    | _, _ => throw (.text .malformed)
  | .object [] (.nameless b) => .error (.text b.read)
  | d => .error (.text d.choiceFault)

end Draft

def NodeKind.names : List (String × NodeKind) := [("host", .host), ("interface", .interface)]

def EdgeKind.names : List (String × EdgeKind) := [("spoke", .spoke), ("peer", .peer)]

def readEdgeKind? : Draft → Reads (Option EdgeKind)
  | .null => .ok none
  | .broken b => .error (.text b.chooseOrNull)
  | d => some <$> d.readVariant EdgeKind.names

namespace NodeEntry

def idField : Field Draft NodeEntry :=
  ⟨"id", [], fun d n => do return { n with id := ⟨← d.readString⟩ }⟩

def kindField : Field Draft NodeEntry :=
  ⟨"kind", [], fun d n => do return { n with kind := ← d.readVariant NodeKind.names }⟩

def record : OpenRecord NodeEntry where
  title := "struct RawNode"
  fields := [idField, kindField]
  required := [idField, kindField]
  attributes :=
    [⟨"name", [], fun j n => do return { n with attrs.name := ← j.readString? }⟩,
     ⟨"address", [], fun j n => do return { n with attrs.address := ← j.readString? }⟩]
  keep name j n := { n with attrs.extra := n.attrs.extra.insert name j }

/-- Reads a node. -/
def read (d : Draft) : Reads NodeEntry :=
  record.read ⟨⟨""⟩, .host, {}⟩ d

end NodeEntry

namespace EdgeEntry

def idField : Field Draft EdgeEntry :=
  ⟨"id", [], fun d e => do return { e with id := ⟨← d.readString⟩ }⟩

def sourceField : Field Draft EdgeEntry :=
  ⟨"source", [], fun d e => do return { e with source := ⟨← d.readString⟩ }⟩

def targetField : Field Draft EdgeEntry :=
  ⟨"target", [], fun d e => do return { e with target := ⟨← d.readString⟩ }⟩

def kindField : Field Draft EdgeEntry :=
  ⟨"kind", [], fun d e => do return { e with kind := ← readEdgeKind? d }⟩

def record : OpenRecord EdgeEntry where
  title := "struct RawEdge"
  fields := [idField, sourceField, targetField, kindField]
  required := [idField, sourceField, targetField]
  attributes :=
    [⟨"allowed_ips", ["allowedIps"],
        fun j e => do return { e with attrs.allowedIps := ← j.readStrings }⟩,
     ⟨"persistent_keepalive", ["persistentKeepalive"],
        fun j e => do return { e with attrs.keepalive := ← j.readWord? }⟩]
  keep name j e := { e with attrs.extra := e.attrs.extra.insert name j }

/-- Reads an edge. -/
def read (d : Draft) : Reads EdgeEntry :=
  record.read ⟨⟨""⟩, ⟨""⟩, ⟨""⟩, none, {}⟩ d

end EdgeEntry

namespace Snapshot

def record : Record Snapshot where
  title := "struct TopologySnapshot"
  fields :=
    [⟨"nodes", [], fun d s => do return { s with nodes := ← d.readList NodeEntry.read }⟩,
     ⟨"edges", ["links"],
        fun d s => do return { s with edges := ← d.readList EdgeEntry.read }⟩]
  complete := false

/-- Reads a snapshot. -/
def read (d : Draft) : Reads Snapshot := record.read {} d

end Snapshot

/-- Reads all of a text, which must hold one value. -/
def readText {α : Type} (read : Draft → Reads α) (text : String) : Reads α := do
  let (d, clean) := Draft.ofText text
  let a ← read d
  if clean then return a else throw (.text .malformed)

end TunnelMap
