import TunnelMap.Proofs.Graph.Incidence
import TunnelMap.Proofs.Layout.Fit

/-! What goes over from an earlier layout to the layout of another graph. The two graphs have their
nodes in any order and share what ids they may, so an entry of the earlier layout is only ever
found by the id of its node. An entry that is found goes over as it is; where there is none, the
later layout keeps its own. -/

namespace TunnelMap.Layout

variable {R S : Type}

section Remembered

variable {previous : Layout R S} {g : Graph} {id : NodeId}

theorem remembered_eq_none (h : g.nodeIdx? id = none) : previous.remembered g id = none := by
  rw [remembered, h]
  rfl

/-- A layout with a place and a pin for each node remembers both, by the index of the id. -/
theorem remembered_eq_some {i : NodeIdx} {p : Point R} {pinned : Bool} (h : g.nodeIdx? id = some i)
    (hp : previous.positions[i]? = some p) (hb : previous.pinned[i]? = some pinned) :
    previous.remembered g id = some (p, pinned) := by
  simp [remembered, h, hp, hb]

theorem Staffed.exists_entry {n : Nat} (h : previous.Staffed n) {i : NodeIdx} (hi : i < n) :
    ∃ p pinned, previous.positions[i]? = some p ∧ previous.pinned[i]? = some pinned :=
  ⟨_, _, List.getElem?_eq_getElem (h.positions ▸ hi), List.getElem?_eq_getElem (h.pinned ▸ hi)⟩

end Remembered

variable [Precision R S] {l previous : Layout R S} {g previousGraph : Graph} {j : NodeIdx} {n : Node}
  {p : Point R} {pinned : Bool}

omit [Precision R S] in
theorem Staffed.inherit {n : Nat} (h : l.Staffed n) {memory : List (Option (Point R × Bool))}
    (hm : memory.length = n) : (l.inherit memory).Staffed n :=
  h.congr (by simp [Layout.inherit, hm, h.positions]) (by simp [Layout.inherit, hm, h.pinned])
    rfl rfl rfl rfl

theorem Fits.carryOver (h : l.Fits g) (previousGraph : Graph) (previous : Layout R S) :
    (l.carryOver g previousGraph previous).1.Fits g :=
  ⟨(h.staffed.inherit (List.length_map ..)).writeBack, h.links, inStep_writeBack _⟩

/-- At each place there is then what is remembered of its node, or else what was there. -/
theorem carryOver_getElem? (previousGraph : Graph) (previous : Layout R S) (hn : g.node? j = some n)
    (hp : l.positions[j]? = some p) (hb : l.pinned[j]? = some pinned) :
    let entry := (previous.remembered previousGraph n.id).getD (p, pinned)
    (l.carryOver g previousGraph previous).1.positions[j]? = some entry.1 ∧
      (l.carryOver g previousGraph previous).1.pinned[j]? = some entry.2 := by
  have hnodes : g.nodes[j]? = some n := hn
  dsimp only [carryOver, writeBack, inherit]
  rw [List.getElem?_zipWith, List.getElem?_zipWith, List.getElem?_map, hnodes, hp, hb, Option.map_some]
  cases previous.remembered previousGraph n.id with
  | none => exact ⟨rfl, rfl⟩
  | some entry => exact ⟨rfl, rfl⟩

theorem carryOver_of_known (h : l.Staffed g.nodes.length) (hn : g.node? j = some n) {i : NodeIdx}
    (hi : previousGraph.nodeIdx? n.id = some i) (hp : previous.positions[i]? = some p)
    (hb : previous.pinned[i]? = some pinned) :
    (l.carryOver g previousGraph previous).1.positions[j]? = some p ∧
      (l.carryOver g previousGraph previous).1.pinned[j]? = some pinned := by
  obtain ⟨q, b, hq, hqb⟩ := h.exists_entry (List.getElem?_eq_some_iff.mp hn).1
  have hentry := carryOver_getElem? previousGraph previous hn hq hqb
  rwa [remembered_eq_some hi hp hb] at hentry

theorem carryOver_of_unknown (hn : g.node? j = some n) (hi : previousGraph.nodeIdx? n.id = none)
    (hp : l.positions[j]? = some p) (hb : l.pinned[j]? = some pinned) :
    (l.carryOver g previousGraph previous).1.positions[j]? = some p ∧
      (l.carryOver g previousGraph previous).1.pinned[j]? = some pinned := by
  have hentry := carryOver_getElem? previousGraph previous hn hp hb
  rwa [remembered_eq_none hi] at hentry

end TunnelMap.Layout
