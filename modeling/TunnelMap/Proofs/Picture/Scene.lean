import TunnelMap.Picture.Scene
import TunnelMap.Proofs.Hover.Agreement
import TunnelMap.Proofs.View.Fit

/-! What the picture of a view is made of. Whatever the picture is drawn by, it has to show each edge
and each node once, the edges first and what stands out last, faded where something else stands out,
and with a ring around each node that stands out. Three things that are decided apart have to agree for
that: which nodes are drawn last, which are faded and which have a ring. They do since a node that is
hovered stands out itself, in every view that can come about. -/

namespace TunnelMap

namespace Call

variable {R : Type}

/-- The calls that text is written with. -/
def Writes : Call R → Prop
  | .textAlign _ | .textBaseline _ | .font _ | .fillStyle _ | .globalAlpha _ | .fillText .. => True
  | _ => False

/-- The calls that dots are painted with. -/
def Dots : Call R → Prop
  | .fillStyle _ | .beginPath | .arc .. | .fill => True
  | _ => False

end Call

variable {R S : Type} [Scalar R] [Engine S] [Precision R S]

/-! ### Pictures of entities -/

namespace View

/-- Whether a node is faded. -/
def fadesNode (v : View R S) (i : NodeIdx) : Bool :=
  !v.hover.highlight.isEmpty && !v.hover.highlight.hasNode i

/-- Whether an edge is faded. -/
def fadesEdge (v : View R S) (i : EdgeIdx) : Bool :=
  !v.hover.highlight.isEmpty && !v.hover.highlight.hasEdge i

/-- The ring around a node that the pointer rests on, or that stands out besides. -/
def ring? (v : View R S) (i : NodeIdx) (n : Node) : Option Ring :=
  if v.hover.target = .node n.id then some .hovered
  else if v.hover.highlight.hasNode i then some .neighbor
  else none

/-- A picture of an edge: one line between the places of its ends, and dots on it. -/
inductive EdgePicture (v : View R S) (theme : Theme R) (i : EdgeIdx) (e : Edge) :
    List (Call R) → Prop
  | mk {s t : Point R} {line : Call R} {dots : List (Call R)} (width : R) :
    v.layout.positions[e.source]? = some s → v.layout.positions[e.target]? = some t →
    (line = .lineTo t ∨ ∃ control, line = .quadraticCurveTo control t) → (∀ c ∈ dots, c.Dots) →
    EdgePicture v theme i e
      ([.globalAlpha (if v.fadesEdge i then theme.dimAlpha else 1),
        .strokeStyle (if v.hover.highlight.hasEdge i then theme.edgeHighlight else theme.edge e.kind),
        .lineWidth width, .beginPath, .moveTo s, line, .stroke] ++ dots ++ [.globalAlpha 1])

end View

/-- A picture of a ring around a point. -/
inductive RingPicture (theme : Theme R) (p : Point R) : Option Ring → List (Call R) → Prop
  | none : RingPicture theme p none []
  | hovered (radius width : R) : RingPicture theme p (some .hovered)
      [.beginPath, .circle p radius, .strokeStyle theme.hoverRing, .lineWidth width, .stroke]
  | neighbor (radius width : R) : RingPicture theme p (some .neighbor)
      [.beginPath, .circle p radius, .strokeStyle theme.neighborRing, .lineWidth width, .stroke]

namespace View

/-- A picture of a node: one disc at its place, the ring that it has, and text. -/
inductive NodePicture (v : View R S) (theme : Theme R) (i : NodeIdx) (n : Node) :
    List (Call R) → Prop
  | mk {p : Point R} {ring text : List (Call R)} (radius : R) :
    v.layout.positions[i]? = some p → RingPicture theme p (v.ring? i n) ring →
    (∀ c ∈ text, c.Writes) →
    NodePicture v theme i n
      ([.globalAlpha (if v.fadesNode i then theme.dimAlpha else 1), .beginPath, .circle p radius,
        .fillStyle (theme.node n.kind), .fill] ++ ring ++ text ++ [.globalAlpha 1])

end View

namespace Frame

omit [Engine S] [Precision R S] in
theorem drawRing_picture (f : Frame R) (p : Point R) (radius : R) (ring : Option Ring) :
    RingPicture f.theme p ring (f.drawRing p radius ring) := by
  rcases ring with _ | _ | _
  · exact .none
  · exact .hovered _ _
  · exact .neighbor _ _

theorem drawParticles_dots (f : Frame R) (look : EdgeLook R) (c : Curve R) :
    ∀ call ∈ f.drawParticles look c, call.Dots := by
  unfold drawParticles discs
  split_ifs
  · simp
  · simp only [List.forall_mem_cons, List.mem_flatMap, forall_exists_index, and_imp]
    refine ⟨trivial, fun call p _ hcall => ?_⟩
    simp only [List.mem_cons, List.not_mem_nil, or_false] at hcall
    rcases hcall with rfl | rfl | rfl <;> trivial

theorem drawLabels_writes (f : Frame R) (n : Node) (x top alpha : R) :
    ∀ call ∈ f.drawLabels n x top alpha, call.Writes := by
  unfold drawLabels
  dsimp only
  split
  · simp [Call.Writes]
  · split_ifs
    · simp [Call.Writes]
    · simp [Call.Writes]

end Frame

omit [Engine S] [Precision R S] in
theorem View.exists_edgeLook (v : View R S) (theme : Theme R) (i : EdgeIdx) (e : Edge) :
    ∃ width curvature particles radius, (v.frame theme).edgeLook i e =
      ⟨width, curvature, particles, radius, v.hover.highlight.hasEdge i, v.fadesEdge i⟩ := by
  cases hk : e.kind <;> simp [Frame.edgeLook, EdgeLook.of, hk, frame, fadesEdge]

namespace View.Reachable

variable {v : View R S} (hv : v.Reachable)

include hv

theorem hovered_iff {i : NodeIdx} {n : Node} (hn : v.graph.node? i = some n) :
    v.hover.node? v.graph = some i ↔ v.hover.target = .node n.id := by
  unfold Hover.node?
  cases ht : v.hover.target with
  | node id =>
    simp only [hv.sound.nodeIdx?_eq_some, hn, Option.some.injEq, Target.node.injEq]
    exact ⟨fun ⟨m, hm, hid⟩ => hm ▸ hid.symm, fun hid => ⟨n, rfl, hid.symm⟩⟩
  | _ => simp

/-- The node that the pointer rests on stands out. -/
theorem hasNode_of_hovered {i : NodeIdx} (h : v.hover.node? v.graph = some i) :
    v.hover.highlight.hasNode i := by
  unfold Hover.node? at h
  split at h
  · next id ht =>
    obtain ⟨j, hj, -, hmem⟩ := hv.settled.of_node ht
    obtain rfl : j = i := Option.some.inj (hj.symm.trans h)
    simpa [Highlight.hasNode] using hmem
  · cases h

theorem isAbove_eq (theme : Theme R) (i : NodeIdx) :
    (v.frame theme).isAbove i = v.hover.highlight.hasNode i := by
  unfold Frame.isAbove frame
  dsimp only
  cases hi : v.hover.highlight.hasNode i with
  | true => rfl
  | false =>
    have hother : v.hover.node? v.graph ≠ some i := fun h => by
      simp [hv.hasNode_of_hovered h] at hi
    simpa using hother

theorem ring?_isSome {i : NodeIdx} {n : Node} (hn : v.graph.node? i = some n) :
    (v.ring? i n).isSome = v.hover.highlight.hasNode i := by
  unfold ring?
  split_ifs with ht hi
  · exact (hv.hasNode_of_hovered ((hv.hovered_iff hn).mpr ht)).symm
  · exact hi.symm
  · simpa using hi

/-- What is decided for a node agrees with what stands out and with what the pointer rests on. -/
theorem nodeLook_eq (theme : Theme R) {i : NodeIdx} {n : Node} (hn : v.graph.node? i = some n) :
    (v.frame theme).nodeLook i n = ⟨v.fadesNode i, v.ring? i n, n.kind.isHub⟩ := by
  have hhovered : (v.frame theme).hovered = some i ↔ v.hover.target = .node n.id := hv.hovered_iff hn
  have hfades : (!v.hover.highlight.isEmpty && (v.ring? i n).isNone) = v.fadesNode i := by
    rw [fadesNode, ← hv.ring?_isSome hn, Option.not_isSome]
  simp only [Frame.nodeLook, NodeLook.of, hhovered]
  exact congrArg (NodeLook.mk · (v.ring? i n) n.kind.isHub) hfades

theorem drawEdge_picture (theme : Theme R) {i : EdgeIdx} {e : Edge} (he : v.graph.edge? i = some e) :
    v.EdgePicture theme i e ((v.frame theme).drawEdge i e) := by
  obtain ⟨s, t, hs, ht⟩ := hv.exists_ends he
  obtain ⟨width, curvature, particles, radius, hlook⟩ := v.exists_edgeLook theme i e
  have hsource : (v.frame theme).positions[e.source]? = some s := hs
  have htarget : (v.frame theme).positions[e.target]? = some t := ht
  rw [Frame.drawEdge, hsource, htarget]
  dsimp only
  rw [hlook]
  refine .mk width hs ht ?_ ((v.frame theme).drawParticles_dots _ _)
  split_ifs
  · exact .inr ⟨_, rfl⟩
  · exact .inl rfl

theorem drawNode_picture (theme : Theme R) {i : NodeIdx} {n : Node} (hn : v.graph.node? i = some n) :
    v.NodePicture theme i n ((v.frame theme).drawNode i n) := by
  obtain ⟨p, hp⟩ := hv.exists_position (List.getElem?_eq_some_iff.mp hn).1
  have hplace : (v.frame theme).positions[i]? = some p := hp
  rw [Frame.drawNode, hplace]
  dsimp only
  rw [hv.nodeLook_eq theme hn]
  refine .mk _ hp ((v.frame theme).drawRing_picture p _ _) ?_
  split_ifs
  · exact (v.frame theme).drawLabels_writes _ _ _ _
  · simp

end View.Reachable

/-! ### The picture of a view -/

namespace View

/-- A picture of a view: the background, then under the camera a picture of each edge, of each node that
does not stand out and of each one that does, all in the order of their places. -/
inductive Picture (v : View R S) (theme : Theme R) : List (Call R) → Prop
  | mk {edges below above : List (List (Call R))} :
    List.Forall₂ (fun p => v.EdgePicture theme p.2 p.1) v.graph.edges.zipIdx edges →
    List.Forall₂ (fun p => v.NodePicture theme p.2 p.1)
      (v.graph.nodes.zipIdx.filter fun p => !v.hover.highlight.hasNode p.2) below →
    List.Forall₂ (fun p => v.NodePicture theme p.2 p.1)
      (v.graph.nodes.zipIdx.filter fun p => v.hover.highlight.hasNode p.2) above →
    Picture v theme
      ([.fillStyle theme.background, .fillRect .origin v.width v.height, .save,
        .translate v.camera.x v.camera.y, .scale v.camera.k v.camera.k] ++
        edges.flatten ++ below.flatten ++ above.flatten ++ [.restore])

namespace Reachable

variable {v : View R S} (hv : v.Reachable)

include hv

theorem drawNodes_pictures (theme : Theme R) {ps : List (Node × NodeIdx)}
    (hps : ∀ p ∈ ps, p ∈ v.graph.nodes.zipIdx) :
    List.Forall₂ (fun p => v.NodePicture theme p.2 p.1) ps
      (ps.map fun p => (v.frame theme).drawNode p.2 p.1) := by
  rw [List.forall₂_map_right_iff, List.forall₂_same]
  exact fun p hp => hv.drawNode_picture theme (List.mem_zipIdx_iff_getElem?.mp (hps p hp))

theorem draw_picture (theme : Theme R) : v.Picture theme (v.draw theme) := by
  have hedges : List.Forall₂ (fun p => v.EdgePicture theme p.2 p.1) v.graph.edges.zipIdx
      (v.graph.edges.zipIdx.map fun p => (v.frame theme).drawEdge p.2 p.1) := by
    rw [List.forall₂_map_right_iff, List.forall₂_same]
    exact fun p hp => hv.drawEdge_picture theme (List.mem_zipIdx_iff_getElem?.mp hp)
  unfold draw Frame.drawEdges Frame.drawNodes
  simp only [hv.isAbove_eq, beq_false, beq_true, List.flatMap_def]
  exact .mk hedges (hv.drawNodes_pictures theme fun p hp => List.mem_of_mem_filter hp)
    (hv.drawNodes_pictures theme fun p hp => List.mem_of_mem_filter hp)

/-- The pointer rests on one node of the graph or on none. -/
theorem countP_hovered : (v.graph.nodes.countP fun n => v.hover.target = .node n.id) =
    match v.hover.target with
    | .node _ => 1
    | _ => 0 := by
  cases ht : v.hover.target with
  | node id =>
    obtain ⟨i, hi⟩ := Graph.resolve_node_eq (ht ▸ hv.settled.resolve_target)
    obtain ⟨n, hn, hid⟩ := hv.sound.nodeIdx?_eq_some.mp hi
    have hmem : id ∈ v.graph.nodes.map (·.id) :=
      List.mem_map.mpr ⟨n, List.mem_of_getElem? hn, hid⟩
    calc (v.graph.nodes.countP fun n => Target.node id = .node n.id)
      _ = (v.graph.nodes.map (·.id)).count id := by
        rw [List.count, List.countP_map]
        refine List.countP_congr fun m _ => ?_
        simp only [decide_eq_true_eq, Target.node.injEq, Function.comp_apply, beq_iff_eq]
        exact eq_comm
      _ = 1 := List.count_eq_one_of_mem hv.sound.nodes_nodup hmem
  | _ => simp

theorem ring_eq_hovered (theme : Theme R) {i : NodeIdx} {n : Node} (hn : v.graph.node? i = some n) :
    ((v.frame theme).nodeLook i n).ring = some .hovered ↔ v.hover.target = .node n.id := by
  rw [hv.nodeLook_eq theme hn]
  unfold ring?
  split_ifs <;> simp_all

/-- One node has the ring of a hovered one, or none has. -/
theorem countP_ring (theme : Theme R) :
    (v.graph.nodes.zipIdx.countP fun p =>
      ((v.frame theme).nodeLook p.2 p.1).ring = some .hovered) =
    match v.hover.target with
    | .node _ => 1
    | _ => 0 := by
  calc (v.graph.nodes.zipIdx.countP fun p =>
        ((v.frame theme).nodeLook p.2 p.1).ring = some .hovered)
    _ = v.graph.nodes.zipIdx.countP ((fun n => v.hover.target = .node n.id) ∘ Prod.fst) := by
      refine List.countP_congr fun p hp => ?_
      simpa using hv.ring_eq_hovered theme (List.mem_zipIdx_iff_getElem?.mp hp)
    _ = v.graph.nodes.countP fun n => v.hover.target = .node n.id := by
      rw [← List.countP_map, List.zipIdx_map_fst]
    _ = _ := hv.countP_hovered

/-- In every view that can come about, drawing it makes a picture of it. The nodes below and above are
all nodes. A node is faded just if something stands out and the node does not, and an edge likewise; a
node has a ring just if it stands out, and the ring of a hovered node just if the pointer rests on it,
which is so of one node if it rests on a node, and else of none. -/
theorem draw_shows (theme : Theme R) :
    v.Picture theme (v.draw theme) ∧
    ((v.graph.nodes.zipIdx.filter fun p => !v.hover.highlight.hasNode p.2) ++
      v.graph.nodes.zipIdx.filter fun p => v.hover.highlight.hasNode p.2).Perm v.graph.nodes.zipIdx ∧
    (∀ i n, v.graph.node? i = some n →
      let look := (v.frame theme).nodeLook i n
      (look.dimmed ↔ ¬ v.hover.highlight.isEmpty ∧ ¬ v.hover.highlight.hasNode i) ∧
      (look.ring.isSome ↔ v.hover.highlight.hasNode i) ∧
      (look.ring = some .hovered ↔ v.hover.target = .node n.id)) ∧
    (∀ i e, v.graph.edge? i = some e → (((v.frame theme).edgeLook i e).dimmed ↔
      ¬ v.hover.highlight.isEmpty ∧ ¬ v.hover.highlight.hasEdge i)) ∧
    (v.graph.nodes.zipIdx.countP fun p =>
        ((v.frame theme).nodeLook p.2 p.1).ring = some .hovered) =
      match v.hover.target with
      | .node _ => 1
      | _ => 0 := by
  refine ⟨hv.draw_picture theme, ?_, fun i n hn => ⟨?_, ?_, hv.ring_eq_hovered theme hn⟩,
    fun i e _ => ?_, hv.countP_ring theme⟩
  · exact (List.perm_append_comm).trans (List.filter_append_perm _ _)
  · rw [hv.nodeLook_eq theme hn]
    simp [fadesNode]
  · rw [hv.nodeLook_eq theme hn, hv.ring?_isSome hn]
  · obtain ⟨width, curvature, particles, radius, hlook⟩ := v.exists_edgeLook theme i e
    simp [hlook, fadesEdge]

end Reachable

/-- The pointer rests on a node that an edge joins to one of two others. -/
theorem draw_shows_hovered : ∃ v : View ℝ ℝ,
    v.graph.nodes.map (·.id.text) = ["c", "b", "a"] ∧ v.hover.target = .node ⟨"a"⟩ ∧
      [0, 1, 2].map v.fadesNode = [true, false, false] ∧
      v.graph.nodes.zipIdx.map (fun p => v.ring? p.2 p.1) = [none, some .neighbor, some .hovered] ∧
      v.Picture .standard (v.draw .standard) := by
  let a : NodeEntry := ⟨⟨"a"⟩, .interface, {}⟩
  let b : NodeEntry := ⟨⟨"b"⟩, .interface, {}⟩
  let c : NodeEntry := ⟨⟨"c"⟩, .interface, {}⟩
  let trio : Graph := .ofParts [c.node, b.node, a.node] [⟨⟨"t"⟩, 2, 1, .peer, {}⟩]
  have hlone : Graph.OfSnapshot (.ofParts [a.node] []) := ⟨⟨[a], []⟩, rfl⟩
  have htrio : trio.OfSnapshot := ⟨⟨[c, b, a], [⟨⟨"t"⟩, a.id, b.id, none, {}⟩]⟩, rfl⟩
  obtain ⟨o, p, ho, hv, -⟩ := exists_rest (S := ℝ) a.node
  have hpoint : (.point p : Operation ℝ ℝ).FromSnapshot := trivial
  have hreplace : (.replace trio : Operation ℝ ℝ).FromSnapshot := htrio
  have hreach : ((o.value.point p).value.replace trio).value.Reachable :=
    .perform (.perform (.start hlone ho) hpoint rfl) hreplace rfl
  have hhover : ((o.value.point p).value.replace trio).value.hover =
      ⟨.node ⟨"a"⟩, ⟨[1, 2], [0]⟩⟩ := by
    change ((o.value.point p).value.hover.rebind trio).1 = _
    rw [hv]
    rfl
  refine ⟨_, rfl, by rw [hhover], ?_, ?_, (hreach.draw_shows .standard).1⟩
  · unfold fadesNode
    rw [hhover]
    decide
  · unfold ring?
    rw [hhover]
    rfl

end View

end TunnelMap
