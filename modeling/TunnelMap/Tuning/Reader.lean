import TunnelMap.Json.Record
import TunnelMap.Scalar.Binary
import TunnelMap.Tuning.Basic

/-! Reading tunings from JSON. What is not given keeps its standard value; a link is given
whole. -/

namespace TunnelMap

namespace LinkParams

def record : Record (LinkParams Float) where
  title := "struct LinkParams"
  fields :=
    [⟨"distance", [], fun d p => do return { p with distance := ← d.readFloat }⟩,
     ⟨"strength", [], fun d p => do return { p with strength := ← d.readFloat }⟩]
  complete := true

/-- Reads the two numbers of a link. -/
def read (d : Draft) : Reads (LinkParams Float) := record.read ⟨0, 0⟩ d

end LinkParams

namespace Tuning

def record : Record (Tuning Float) where
  title := "struct PhysicsConfig"
  fields :=
    [⟨"spoke", [], fun d t => do return { t with spoke := ← LinkParams.read d }⟩,
     ⟨"peer", [], fun d t => do return { t with peer := ← LinkParams.read d }⟩,
     ⟨"charge", [], fun d t => do return { t with charge := ← d.readFloat }⟩,
     ⟨"alpha_decay", [], fun d t => do return { t with alphaDecay := ← d.readFloat }⟩,
     ⟨"alpha_min", [], fun d t => do return { t with alphaMin := ← d.readFloat }⟩,
     ⟨"velocity_retention", [],
        fun d t => do return { t with velocityRetention := ← d.readFloat }⟩]
  complete := false

/-- Reads a tuning. -/
def read (d : Draft) : Reads (Tuning Float) :=
  record.read standard d

end Tuning

end TunnelMap
