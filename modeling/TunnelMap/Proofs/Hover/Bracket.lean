import TunnelMap.Proofs.View.Exact

/-! How a change of the hover target is told. Between targets of different kinds, the old one is told
to have been left before the new one is told to have been reached. Between two nodes or two edges
nothing is said of leaving: the event that tells of the new target takes the old one back. It is the
same whichever way the change comes about, and what is done to a view changes the target in no
other way. -/

namespace TunnelMap

namespace Hover

/-- A way for the hover to go on: the pointer moves to something of a graph, or leaves the surface,
or another graph comes in. -/
inductive Cue where
  | move (g : Graph) (picked : Target)
  | leave (g : Graph)
  | rebind (g : Graph)

def take (h : Hover) : Cue → Hover × List Event
  | .move g picked => h.move g picked
  | .leave g => h.leave g
  | .rebind g => h.rebind g

/-- The hovers that come about from rest. -/
inductive Reached : Hover → Prop
  | idle : Reached idle
  | take {h : Hover} (cue : Cue) : Reached h → Reached (h.take cue).1

/-- What is told when one target takes the place of another. Leaving is told before reaching, and
within a kind it is not told. -/
inductive Brackets : Target → Target → List Event → Prop
  | reach_node (b : NodeId) : Brackets .nothing (.node b) [.nodeHovered (some b)]
  | reach_edge (b : EdgeId) : Brackets .nothing (.edge b) [.linkHovered (some b)]
  | leave_node (a : NodeId) : Brackets (.node a) .nothing [.nodeHovered none]
  | leave_edge (a : EdgeId) : Brackets (.edge a) .nothing [.linkHovered none]
  | node_edge (a : NodeId) (b : EdgeId) :
      Brackets (.node a) (.edge b) [.nodeHovered none, .linkHovered (some b)]
  | edge_node (a : EdgeId) (b : NodeId) :
      Brackets (.edge a) (.node b) [.linkHovered none, .nodeHovered (some b)]
  | node_node (a b : NodeId) : Brackets (.node a) (.node b) [.nodeHovered (some b)]
  | edge_edge (a b : EdgeId) : Brackets (.edge a) (.edge b) [.linkHovered (some b)]

theorem brackets_leaving_reaching {old new : Target} (hne : new ≠ old) :
    Brackets old new (leaving old new ++ reaching new) := by
  cases old with
  | nothing =>
    cases new with
    | nothing => exact absurd rfl hne
    | node b => exact .reach_node b
    | edge b => exact .reach_edge b
  | node a =>
    cases new with
    | nothing => exact .leave_node a
    | node b => exact .node_node a b
    | edge b => exact .node_edge a b
  | edge a =>
    cases new with
    | nothing => exact .leave_edge a
    | node b => exact .edge_node a b
    | edge b => exact .edge_edge a b

/-- The hover keeps its target or turns to another. -/
theorem take_cases (h : Hover) (cue : Cue) :
    (h.take cue).1.target = h.target ∨ ∃ g next, h.take cue = h.turn g next := by
  cases cue with
  | move g picked =>
    simp only [take, move]
    split_ifs
    · exact .inl rfl
    · exact .inr ⟨g, _, rfl⟩
  | leave g =>
    simp only [take, leave]
    split_ifs
    · exact .inl rfl
    · exact .inr ⟨g, _, rfl⟩
  | rebind g =>
    simp only [take, rebind]
    split_ifs
    · exact .inl rfl
    · exact .inr ⟨g, _, rfl⟩

theorem take_brackets {h h' : Hover} {cue : Cue} {told : List Event} (ht : h.take cue = (h', told))
    (hne : h'.target ≠ h.target) : Brackets h.target h'.target told := by
  rcases h.take_cases cue with hsame | ⟨g, next, hturn⟩
  · rw [ht] at hsame
    exact absurd hsame hne
  · obtain ⟨rfl, rfl⟩ := Prod.mk.inj (ht.symm.trans hturn)
    exact brackets_leaving_reaching hne

end Hover

namespace View

variable {R S : Type} [Scalar R] [Engine S] [Precision R S]

/-- An operation leaves the hover as it was, or the hover goes on in one of its ways and the
operation tells just what that tells. -/
theorem perform?_takes {v : View R S} {op : Operation R S} {o : Outcome (View R S)}
    (h : v.perform? op = some o) :
    o.value.hover = v.hover ∨ ∃ cue, v.hover.take cue = (o.value.hover, o.events) := by
  obtain ⟨sizes, rfl⟩ := perform?_after h
  cases op with
  | press p =>
    obtain ⟨drag, pan, hp⟩ := v.press_eq p
    exact .inl (by simp only [after, hp])
  | point p =>
    cases hd : v.drag.active with
    | true =>
      obtain ⟨moved, layout, hv, -⟩ := v.dragTo_eq p
      exact .inl (by simp only [after, point_held hd, hv])
    | false =>
      obtain ⟨camera, moved, hp⟩ := v.panTo_eq p
      exact .inr ⟨.move v.graph ((v.panTo p).pick p), by simp only [after, point, hd, hp]; rfl⟩
  | exit => exact .inr ⟨.leave v.graph, rfl⟩
  | replace g => exact .inr ⟨.rebind g, rfl⟩
  | _ => exact .inl rfl

/-- Whatever changes the target of a hover, or of the hover of a view, the change is told the same
way: leaving before reaching, but only between targets of different kinds. -/
theorem hover_brackets :
    (∀ (h : Hover) (cue : Hover.Cue), (h.take cue).1.target ≠ h.target →
      Hover.Brackets h.target (h.take cue).1.target (h.take cue).2) ∧
    ∀ (v : View R S) (op : Operation R S) (o : Outcome (View R S)), v.perform? op = some o →
      o.value.hover.target ≠ v.hover.target →
      Hover.Brackets v.hover.target o.value.hover.target o.events := by
  refine ⟨fun _ _ hne => Hover.take_brackets rfl hne, fun v op o ho hne => ?_⟩
  obtain heq | ⟨cue, htake⟩ := perform?_takes ho
  · exact absurd (congrArg Hover.target heq) hne
  · exact Hover.take_brackets htake hne

/-- From a node the pointer goes over to a tunnel, and in a view the node goes while the pointer
rests on it. -/
theorem hover_brackets_leaving_node :
    (∃ (h : Hover) (cue : Hover.Cue), h.target = .node ⟨"a"⟩ ∧ (h.take cue).1.target = .edge ⟨"t"⟩ ∧
      Hover.Brackets (.node ⟨"a"⟩) (.edge ⟨"t"⟩) (h.take cue).2) ∧
    ∃ (v : View ℝ ℝ) (op : Operation ℝ ℝ) (o : Outcome (View ℝ ℝ)), v.perform? op = some o ∧
      v.hover.target = .node ⟨"a"⟩ ∧ o.value.hover.target = .nothing ∧
      Hover.Brackets (.node ⟨"a"⟩) .nothing o.events := by
  let a : Node := ⟨⟨"a"⟩, .interface, {}⟩
  let b : Node := ⟨⟨"b"⟩, .interface, {}⟩
  let pair : Graph := .ofParts [a, b] [⟨⟨"t"⟩, 0, 1, .peer, {}⟩]
  obtain ⟨o, p, -, hv, -⟩ := exists_rest (S := ℝ) a
  have hhover : (o.value.point p).value.hover = ⟨.node a.id, ⟨[0], []⟩⟩ := by rw [hv]
  generalize (o.value.point p).value = v at hhover
  have htarget : v.hover.target = .node a.id := by rw [hhover]
  have hgone : (v.replace .empty).value.hover.target = .nothing := by
    change (v.hover.rebind .empty).1.target = _
    rw [hhover]
    rfl
  have hne : (v.replace .empty).value.hover.target ≠ v.hover.target := by
    rw [hgone, htarget]
    exact nofun
  obtain ⟨htake, hperform⟩ := hover_brackets (R := ℝ) (S := ℝ)
  let h : Hover := ⟨.node a.id, pair.nodeHighlight a.id⟩
  let cue : Hover.Cue := .move pair (.edge ⟨"t"⟩)
  have hleft := hperform v (.replace .empty) _ rfl hne
  rw [hgone, htarget] at hleft
  exact ⟨⟨h, cue, rfl, rfl, htake h cue (by decide)⟩,
    v, .replace .empty, _, rfl, htarget, hgone, hleft⟩

/-- Between two nodes and between two tunnels, the old target is not told to have been left. -/
theorem leaving_untold_within_kind : ∃ (g : Graph) (h h' : Hover), g.OfSnapshot ∧
    h.Reached ∧ h.target = .node ⟨"a"⟩ ∧
      (h.take (.move g (.node ⟨"b"⟩))).1.target = .node ⟨"b"⟩ ∧
      .nodeHovered none ∉ (h.take (.move g (.node ⟨"b"⟩))).2 ∧
    h'.Reached ∧ h'.target = .edge ⟨"t"⟩ ∧
      (h'.take (.move g (.edge ⟨"u"⟩))).1.target = .edge ⟨"u"⟩ ∧
      .linkHovered none ∉ (h'.take (.move g (.edge ⟨"u"⟩))).2 := by
  let a : NodeEntry := ⟨⟨"a"⟩, .interface, {}⟩
  let b : NodeEntry := ⟨⟨"b"⟩, .interface, {}⟩
  let g : Graph := .ofParts [a.node, b.node]
    [⟨⟨"t"⟩, 0, 1, .peer, {}⟩, ⟨⟨"u"⟩, 1, 0, .peer, {}⟩]
  have hg : g.OfSnapshot :=
    ⟨⟨[a, b], [⟨⟨"t"⟩, a.id, b.id, none, {}⟩, ⟨⟨"u"⟩, b.id, a.id, none, {}⟩]⟩, rfl⟩
  exact ⟨g, _, _, hg, .take (.move g (.node a.id)) .idle, rfl, rfl, by decide,
    .take (.move g (.edge ⟨"t"⟩)) .idle, rfl, rfl, by decide⟩

end View

end TunnelMap
