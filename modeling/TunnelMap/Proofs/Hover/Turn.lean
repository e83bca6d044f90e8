import Mathlib.Tactic.SplitIfs
import TunnelMap.Hover

/-! How a hover goes over from target to target. However it comes to that, by a move of the
pointer, by its leaving or by another graph, the same holds: the new target is one that the graph
has, what stands out is what the graph gives for it, and what is told is the leaving of the old
target and the reaching of the new one, or nothing if they are the same. -/

namespace TunnelMap

/-- The event is about what the pointer rests on. -/
def Event.isHover : Event → Bool
  | .nodeHovered _ | .linkHovered _ => true
  | .nodeClicked _ => false

theorem mem_insertIdx {i j : Nat} {is : List Nat} : j ∈ insertIdx i is ↔ j = i ∨ j ∈ is := by
  induction is with
  | nil => simp [insertIdx]
  | cons k ks ih =>
    simp only [insertIdx]
    split_ifs with hlt heq
    · simp
    · simp [heq]
    · simp only [List.mem_cons, ih]
      exact or_left_comm

@[simp] theorem mem_idxSet {j : Nat} {is : List Nat} : j ∈ idxSet is ↔ j ∈ is := by
  induction is with
  | nil => rfl
  | cons i is ih =>
    rw [idxSet, List.foldr_cons, mem_insertIdx, List.mem_cons]
    exact or_congr_right ih

namespace Graph

@[simp] theorem resolve_nothing (g : Graph) : g.resolve .nothing = .nothing := rfl

theorem resolve_node (g : Graph) (id : NodeId) :
    g.resolve (.node id) = if (g.nodeIdx? id).isSome then .node id else .nothing := rfl

theorem resolve_edge (g : Graph) (id : EdgeId) :
    g.resolve (.edge id) =
      if ((g.edgeIdx? id).bind g.edge?).any Edge.isHoverable then .edge id else .nothing := rfl

/-- What a target counts as is the target itself or nothing. -/
theorem resolve_cases (g : Graph) (t : Target) : g.resolve t = t ∨ g.resolve t = .nothing := by
  cases t with
  | nothing => exact .inl rfl
  | node id => rw [resolve_node]; split_ifs <;> simp
  | edge id => rw [resolve_edge]; split_ifs <;> simp

@[simp] theorem resolve_resolve (g : Graph) (t : Target) : g.resolve (g.resolve t) = g.resolve t := by
  rcases g.resolve_cases t with h | h <;> simp [h]

theorem nodeHighlight_eq {g : Graph} {id : NodeId} {i : NodeIdx} (h : g.nodeIdx? id = some i) :
    g.nodeHighlight id = ⟨idxSet (i :: g.neighbors i), idxSet (g.incident i)⟩ := by
  simp [nodeHighlight, h]

theorem edgeHighlight_eq {g : Graph} {id : EdgeId} {i : EdgeIdx} {e : Edge}
    (h : g.edgeIdx? id = some i) (he : g.edge? i = some e) :
    g.edgeHighlight id = ⟨idxSet [e.source, e.target], [i]⟩ := by
  simp [edgeHighlight, h, he]

end Graph

namespace Hover

/-- The target is one that the graph has, and what stands out is what the graph gives for it. -/
structure Settled (h : Hover) (g : Graph) : Prop where
  resolve_target : g.resolve h.target = h.target
  highlight_eq : h.highlight = g.highlight h.target

theorem idle_settled (g : Graph) : idle.Settled g := ⟨rfl, rfl⟩

/-- What is told when one target takes the place of another, or stays. -/
def passing (old new : Target) : List Event :=
  if new = old then [] else leaving old new ++ reaching new

/-- The hover `h` becomes `h'` on a graph, and `told` tells so. -/
structure Turns (g : Graph) (h h' : Hover) (told : List Event) : Prop where
  settled : h'.Settled g
  told_eq : told = passing h.target h'.target

theorem Settled.turns {h : Hover} {g : Graph} (hs : h.Settled g) : Turns g h h [] :=
  ⟨hs, by simp [passing]⟩

theorem turn_turns {h : Hover} {g : Graph} {next : Target} (hn : g.resolve next = next)
    (hne : next ≠ h.target) : Turns g h (h.turn g next).1 (h.turn g next).2 :=
  ⟨⟨hn, rfl⟩, by simp [turn, passing, hne]⟩

theorem move_turns {h : Hover} {g : Graph} (hs : h.Settled g) (picked : Target) :
    Turns g h (h.move g picked).1 (h.move g picked).2 := by
  unfold move
  dsimp only
  split_ifs with hn
  · exact hs.turns
  · exact turn_turns (g.resolve_resolve picked) hn

theorem leave_turns {h : Hover} {g : Graph} (hs : h.Settled g) :
    Turns g h (h.leave g).1 (h.leave g).2 := by
  unfold leave
  split_ifs with hn
  · exact hs.turns
  · exact turn_turns rfl (Ne.symm hn)

/-- Another graph settles the hover, whatever it was settled on before. -/
theorem rebind_turns (h : Hover) (g : Graph) : Turns g h (h.rebind g).1 (h.rebind g).2 := by
  unfold rebind
  dsimp only
  split_ifs with hn
  · exact ⟨⟨hn, by rw [hn]⟩, by simp [passing]⟩
  · exact turn_turns (g.resolve_resolve h.target) hn

theorem isHover_of_mem_passing {old new : Target} {e : Event} (he : e ∈ passing old new) :
    e.isHover := by
  unfold passing at he
  split_ifs at he
  · simp at he
  · cases old <;> cases new <;> simp [leaving, reaching] at he <;> grind [Event.isHover]

/-- All that is told of a turn is about what the pointer rests on. -/
theorem Turns.filter_told {g : Graph} {h h' : Hover} {told : List Event} (ht : Turns g h h' told) :
    told.filter Event.isHover = told :=
  List.filter_eq_self.mpr fun _ he => isHover_of_mem_passing (ht.told_eq ▸ he)

end Hover

theorem Graph.click_filter (g : Graph) (t : Target) : (g.click t).filter Event.isHover = [] := by
  cases t with
  | node id => simp only [click]; split_ifs <;> rfl
  | nothing => rfl
  | edge id => rfl

end TunnelMap
