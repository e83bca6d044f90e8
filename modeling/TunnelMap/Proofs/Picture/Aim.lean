import Mathlib.Analysis.Real.Sqrt
import TunnelMap.Proofs.Picture.Marks
import TunnelMap.Proofs.View.Fit
import TunnelMap.Proofs.View.Pan
import TunnelMap.Proofs.View.Pick

/-! The pointer is measured from what is drawn. A picture and the pointer each look up by themselves where
nodes are, how far the edges of a kind are bent, and what the camera does to a point. They come to the same
curve for each edge and the same point for each node, in whatever arithmetic; and where the arithmetic is
exact, the camera takes the pointer back to just the point that a picture put under it. So the pointer
finds a node where the middle of its disc is drawn, and an edge at each of the points between which its
curve is measured. -/

namespace TunnelMap

/-! ### Curves and places -/

theorem EdgeLook.curvature_of {R : Type} [Scalar R] (sizes : Sizes R) (sizing : EdgeSizing R) (e : Edge)
    (highlighted any : Bool) :
    (EdgeLook.of sizes sizing e highlighted any).curvature = sizing.curvature e.kind := by
  unfold EdgeLook.of
  cases e.kind <;> rfl

/-- A circle around a point, or a text. -/
def Mark.CenteredAt {R : Type} (q : Point R) : Mark R → Prop
  | .filled path _ _ | .stroked path _ _ _ _ =>
    ∃ t radius start stop, path = [(t, .arc q radius start stop)]
  | .coated .. => False
  | .written .. => True

variable {R S : Type} [Scalar R]

namespace View

/-- An edge is drawn with a line and with particles along a curve, and it is near the pointer by the
distance from the same curve. -/
structure DrawsEdgeAs (v : View R S) (theme : Theme R) (i : EdgeIdx) (e : Edge) (c : Curve R) :
    Prop where
  marks : ∀ t, ∃ alpha style width count radius, (v.frame theme).edgeMarks i e t =
    .stroked (c.line.map (t, ·)) alpha style width t ::
      (c.particles count v.flowTime v.sizing.edge.particleSpeed).map fun p =>
        .filled [(t, .circle p radius)] alpha theme.particle
  near : ∀ p d, (i, d) ∈ v.edgesNear p ↔
    d = c.distanceTo (v.camera.toWorld p) ∧ d ≤ v.sizes.edgeHitTolerance

/-- A node is drawn with a disc and at times a ring around a point, and it is near the pointer by the
distance from the same point. -/
structure DrawsNodeAt (v : View R S) (theme : Theme R) (i : NodeIdx) (n : Node) (q : Point R) :
    Prop where
  marks : ∀ t, ∃ alpha style rest, (v.frame theme).nodeMarks i n t =
    .filled [(t, .circle q (v.sizes.radiusOf n.kind))] alpha style :: rest ∧
      ∀ m ∈ rest, m.CenteredAt q
  near : ∀ p d, (i, d) ∈ v.nodesNear p ↔
    d = q.dist (v.camera.toWorld p) ∧ d < v.sizes.hitRadiusOf n.kind

/-- On its background a picture leaves the marks of all edges and nodes, and each of them is drawn where
it is measured. -/
structure DrawsMeasured (v : View R S) (theme : Theme R) : Prop where
  marks : ∀ c : Canvas R, c.now.alpha = 1 → (c.run (v.draw theme)).marks =
    c.marks ++ .coated .origin v.width v.height 1 theme.background c.now.placement ::
      ((v.frame theme).entities v.graph).flatMap fun x =>
        (v.frame theme).entityMarks x (v.under c.now.placement)
  entities : ∀ x, x ∈ (v.frame theme).entities v.graph ↔
    (∃ i e, v.graph.edge? i = some e ∧ x = .edge i e) ∨
      ∃ i n, v.graph.node? i = some n ∧ x = .node i n
  edge : ∀ i e, v.graph.edge? i = some e → ∃ c, v.curve? e = some c ∧ v.DrawsEdgeAs theme i e c
  node : ∀ i n, v.graph.node? i = some n →
    ∃ q, v.layout.positions[i]? = some q ∧ v.DrawsNodeAt theme i n q

theorem drawsEdgeAs {v : View R S} (theme : Theme R) {i : EdgeIdx} {e : Edge} {start stop : Point R}
    (he : v.graph.edge? i = some e) (hs : v.layout.positions[e.source]? = some start)
    (ht : v.layout.positions[e.target]? = some stop) :
    v.DrawsEdgeAs theme i e (.between start stop (v.sizing.edge.curvature e.kind)) where
  marks t := by
    have hstart : (v.frame theme).positions[e.source]? = some start := hs
    have hstop : (v.frame theme).positions[e.target]? = some stop := ht
    have hbent : ((v.frame theme).edgeLook i e).curvature = v.sizing.edge.curvature e.kind :=
      EdgeLook.curvature_of _ _ _ _ _
    simp only [Frame.edgeMarks, hstart, hstop, hbent]
    exact ⟨_, _, _, _, _, rfl⟩
  near p d := by
    simp only [mem_edgesNear, he, Option.some.injEq, exists_and_left, exists_eq_left', curve?_eq hs ht]

theorem drawsNodeAt {v : View R S} (theme : Theme R) {i : NodeIdx} {n : Node} {q : Point R}
    (hn : v.graph.node? i = some n) (hq : v.layout.positions[i]? = some q) :
    v.DrawsNodeAt theme i n q where
  marks t := by
    have hplace : (v.frame theme).positions[i]? = some q := hq
    simp only [Frame.nodeMarks, hplace]
    refine ⟨_, _, _, rfl, fun m hm => ?_⟩
    rcases List.mem_append.mp hm with hring | hlabel
    · obtain ⟨style, rfl⟩ := Frame.eq_of_mem_ringMarks hring
      exact ⟨_, _, _, _, rfl⟩
    · split_ifs at hlabel
      · obtain ⟨text, p, a, color, font, rfl, -⟩ := Frame.eq_of_mem_labelMarks hlabel
        trivial
      · simp at hlabel
  near p d := by
    simp only [mem_nodesNear, hn, hq, Option.some.injEq, exists_and_left, exists_eq_left']

variable [Engine S] [Precision R S]

theorem Reachable.drawsMeasured {v : View R S} (hv : v.Reachable) (theme : Theme R) :
    v.DrawsMeasured theme where
  marks c hc := (v.draws_view theme).marks_run hc
  entities x := Frame.mem_entities
  edge i e he := by
    obtain ⟨start, stop, hs, ht⟩ := hv.exists_ends he
    exact ⟨_, curve?_eq hs ht, drawsEdgeAs theme he hs ht⟩
  node i n hn := by
    obtain ⟨q, hq⟩ := hv.exists_position (List.getElem?_eq_some_iff.mp hn).1
    exact ⟨q, hq, drawsNodeAt theme hn hq⟩

end View

/-! ### The camera and the pointer -/

theorem Camera.toScreen_toWorld {c : Camera ℝ} (hk : c.k ≠ 0) (p : Point ℝ) :
    c.toScreen (c.toWorld p) = p := by
  simp [toScreen, toWorld, hk]

namespace View

variable {S : Type}

/-- On a canvas that leaves points where they are, entities are put where the camera shows them. -/
theorem under_put (v : View ℝ S) (w : Point ℝ) : (v.under .plain).put w = v.camera.toScreen w := by
  simp [under, Placement.put, Placement.scale, Placement.translate, Placement.plain, Point.origin,
    Camera.toScreen, Scalar.zero_real, Scalar.one_real]

/-- The pointer finds what is drawn where it is drawn: a node at the middle of its disc, or another that
is there too, and an edge at each point between the chords of a curve, unless a node is near. -/
structure PicksDrawn (v : View ℝ S) : Prop where
  toWorld_put : ∀ w, v.camera.toWorld ((v.under .plain).put w) = w
  put_toWorld : ∀ p, (v.under .plain).put (v.camera.toWorld p) = p
  node : ∀ i n q, v.graph.node? i = some n → v.layout.positions[i]? = some q →
    0 < v.sizes.hitRadiusOf n.kind →
    ∃ j m, v.graph.node? j = some m ∧ v.layout.positions[j]? = some q ∧
      v.pick ((v.under .plain).put q) = .node m.id
  edge : ∀ i e c, v.graph.edge? i = some e → v.curve? e = some c → c.curved →
    0 ≤ v.sizes.edgeHitTolerance → ∀ s ≤ Curve.chords,
    let w := c.pointAt (s / Curve.chords)
    (∀ j n q, v.graph.node? j = some n → v.layout.positions[j]? = some q →
      v.sizes.hitRadiusOf n.kind ≤ q.dist w) →
    ∃ j d, v.graph.edge? j = some d ∧ v.pick ((v.under .plain).put w) = .edge d.id

theorem exists_pick_node {v : View ℝ S} {p q : Point ℝ} {i : NodeIdx} {n : Node}
    (hp : v.camera.toWorld p = q) (hn : v.graph.node? i = some n)
    (hq : v.layout.positions[i]? = some q) (hr : 0 < v.sizes.hitRadiusOf n.kind) :
    ∃ j m, v.graph.node? j = some m ∧ v.layout.positions[j]? = some q ∧ v.pick p = .node m.id := by
  have hmem : (i, q.dist q) ∈ v.nodesNear p :=
    mem_nodesNear.mpr ⟨n, q, hn, hq, by rw [hp], by rwa [Point.dist_self]⟩
  obtain ⟨j, d, hj, hnear, hd⟩ := exists_nearest_le hmem
  obtain ⟨m, q', hm, hq', rfl, -⟩ := mem_nodesNear.mp hnear
  have hzero : q'.dist q = 0 := by
    refine le_antisymm ?_ (q'.dist_nonneg q)
    calc q'.dist q = q'.dist (v.camera.toWorld p) := by rw [hp]
      _ ≤ q.dist q := hd
      _ = 0 := q.dist_self
  obtain rfl := Point.eq_of_dist_eq_zero hzero
  exact ⟨j, m, hm, hq', pick_of_nodeAt? hj hm⟩

theorem exists_pick_edge {v : View ℝ S} {p : Point ℝ} {i : EdgeIdx} {e : Edge} {c : Curve ℝ}
    (hp : v.nodesNear p = []) (he : v.graph.edge? i = some e) (hc : v.curve? e = some c)
    (hd : c.distanceTo (v.camera.toWorld p) ≤ v.sizes.edgeHitTolerance) :
    ∃ j d, v.graph.edge? j = some d ∧ v.pick p = .edge d.id := by
  obtain ⟨j, d, hj, hnear, -⟩ := exists_nearest_le (mem_edgesNear.mpr ⟨e, c, he, hc, rfl, hd⟩)
  obtain ⟨e', -, he', -⟩ := mem_edgesNear.mp hnear
  exact ⟨j, e', he', pick_of_edgeAt? (nodeAt?_eq_none hp) hj he'⟩

variable [Engine S] [Precision ℝ S]

theorem Reachable.picksDrawn {v : View ℝ S} (hv : v.Reachable) : v.PicksDrawn := by
  have hk : v.camera.k ≠ 0 := hv.zoom_pos.ne'
  have hput (w : Point ℝ) : v.camera.toWorld ((v.under .plain).put w) = w := by
    rw [under_put, Camera.toWorld_toScreen hk]
  refine ⟨hput, fun p => ?_, fun i n q hn hq hr => exists_pick_node (hput q) hn hq hr, ?_⟩
  · rw [under_put, Camera.toScreen_toWorld hk]
  · intro i e c he hc hcurved htolerance s hs w hfar
    refine exists_pick_edge ?_ he hc ?_
    · refine List.eq_nil_iff_forall_not_mem.mpr fun x hx => ?_
      obtain ⟨n, q, hn, hq, hd, hnear⟩ := mem_nodesNear.mp hx
      rw [hput] at hd
      exact (hfar _ n q hn hq).not_gt (hd ▸ hnear)
    · rw [hput]
      calc c.distanceTo w = c.distanceTo (c.sample s) := by rw [Curve.sample_eq hcurved]
        _ ≤ 0 := Curve.distanceTo_sample hcurved hs
        _ ≤ v.sizes.edgeHitTolerance := htolerance

/-! ### A view of a tunnel -/

/-- A view of two nodes, which are farther apart than they can be hit from, and of an edge. -/
theorem exists_pair {a b : Node} {t : Edge} (h : Graph.OfSnapshot (.ofParts [a, b] [t])) :
    ∃ (v : View ℝ ℝ) (r : ℝ), v.Reachable ∧ v.graph = .ofParts [a, b] [t] ∧ v.sizing = .standard ∧
      v.layout.positions = [⟨r, 0⟩, ⟨-r, 0⟩] ∧ v.sizes.hitRadius = 6 ∧
      v.sizes.edgeHitTolerance = 4 ∧ 6 ≤ r := by
  obtain ⟨o, ho, -⟩ := exists_standard (S := ℝ) (.ofParts [a, b] [t])
  obtain ⟨sizes, hs, hv, -⟩ := start?_eq_some ho
  obtain ⟨hradius, htolerance⟩ := Sizing.standard_at_one (Scalar.one_real ▸ hs)
  obtain ⟨hplaces, -⟩ :=
    (Layout.ofGraph (.ofParts [a, b] [t]) .standard : Layout ℝ ℝ).tune_places .standard
      (.ofParts [a, b] [t])
  refine ⟨o.value, 10 * √2, .start h ho, by rw [hv], by rw [hv], ?_, by rw [hv]; exact hradius,
    by rw [hv]; exact htolerance, by linarith [Real.one_le_sqrt.mpr one_le_two]⟩
  rw [hv, ← Layout.seed_two.1, ← Layout.seed_two.2]
  exact hplaces

/-- Two interfaces with a tunnel between them: the first is where no other node is, and halfway along the
tunnel no node can be hit. -/
theorem exists_tunnel : ∃ (v : View ℝ ℝ) (a : Node) (t : Edge) (c : Curve ℝ), v.Reachable ∧
    v.graph.node? 0 = some a ∧ a.id = ⟨"a"⟩ ∧ 0 < v.sizes.hitRadiusOf a.kind ∧
    v.layout.positions.Nodup ∧ v.graph.edges = [t] ∧ t.id = ⟨"t"⟩ ∧ v.curve? t = some c ∧
    c.curved ∧ 0 ≤ v.sizes.edgeHitTolerance ∧
    ∀ j n q, v.graph.node? j = some n → v.layout.positions[j]? = some q →
      v.sizes.hitRadiusOf n.kind ≤ q.dist (c.pointAt (8 / Curve.chords)) := by
  let a : NodeEntry := ⟨⟨"a"⟩, .interface, {}⟩
  let b : NodeEntry := ⟨⟨"b"⟩, .interface, {}⟩
  let t : Edge := ⟨⟨"t"⟩, 0, 1, .peer, {}⟩
  obtain ⟨v, r, hreach, hgraph, hsizing, hplaces, hradius, htolerance, hr⟩ :=
    exists_pair (a := a.node) (b := b.node) (t := t) ⟨⟨[a, b], [⟨t.id, a.id, b.id, none, {}⟩]⟩, rfl⟩
  have hhit : v.sizes.hitRadiusOf .interface = 6 := by
    simp [Sizes.hitRadiusOf, hradius, NodeKind.size, Scalar.one_real]
  have hne : (⟨r, 0⟩ : Point ℝ) ≠ ⟨-r, 0⟩ := fun h => by linarith [congrArg Point.x h]
  have hbent : (Scalar.ofDecimal 2 true 1 : ℝ) ≠ 0 := by norm_num [Scalar.ofDecimal_real]
  refine ⟨v, a.node, t, .between ⟨r, 0⟩ ⟨-r, 0⟩ (v.sizing.edge.curvature .peer), hreach,
    by rw [hgraph]; rfl, rfl, hhit ▸ by norm_num, by simpa [hplaces] using hne, by rw [hgraph]; rfl,
    rfl, curve?_eq (by rw [hplaces]; rfl) (by rw [hplaces]; rfl),
    Curve.between_curved (by linarith) (by rw [hsizing]; exact hbent),
    by rw [htolerance]; norm_num, fun j n q hn hq => ?_⟩
  have hkind : n.kind = .interface := by
    have hmem : n ∈ [a.node, b.node] := List.mem_of_getElem? (hgraph ▸ hn)
    rcases List.mem_pair.mp hmem with rfl | rfl <;> rfl
  have habs : |r| = r := abs_of_nonneg (by linarith)
  have hmem : q ∈ [⟨r, 0⟩, ⟨-r, 0⟩] := List.mem_of_getElem? (hplaces ▸ hq)
  rw [hkind, hhit]
  rcases List.mem_pair.mp hmem with rfl | rfl
  · exact hr.trans (Curve.le_dist_pointAt_half habs _ _)
  · exact hr.trans (Curve.le_dist_pointAt_half ((abs_neg r).trans habs) _ _)

/-! ### What is drawn and what is picked -/

/-- A view that can come about is drawn by the curves and places that the pointer is measured from, in
any arithmetic. In exact arithmetic the pointer also finds what is drawn where it is drawn. -/
theorem picks_where_drawn :
    (∀ {R S : Type} [Scalar R] [Engine S] [Precision R S] {v : View R S}, v.Reachable →
      ∀ theme, v.DrawsMeasured theme) ∧
    ∀ {S : Type} [Engine S] [Precision ℝ S] {v : View ℝ S}, v.Reachable → v.PicksDrawn :=
  ⟨fun hv theme => hv.drawsMeasured theme, fun hv => hv.picksDrawn⟩

/-- The pointer finds the first of two interfaces, and the tunnel between them halfway. -/
theorem picks_where_drawn_halfway : ∃ (v : View ℝ ℝ) (q : Point ℝ) (c : Curve ℝ) (a : Node) (t : Edge),
    v.Reachable ∧ v.DrawsNodeAt .standard 0 a q ∧
      v.pick ((v.under .plain).put q) = .node ⟨"a"⟩ ∧
      c.curved ∧ v.DrawsEdgeAs .standard 0 t c ∧
      v.pick ((v.under .plain).put (c.pointAt (8 / Curve.chords))) = .edge ⟨"t"⟩ := by
  obtain ⟨v, a, t, c, hv, ha, haid, hhit, hapart, hedges, htid, hc, hcurved, htolerance, hfar⟩ :=
    exists_tunnel
  have ht : v.graph.edge? 0 = some t := by rw [Graph.edge?, hedges]; rfl
  obtain ⟨hdrawn, hpicked⟩ := picks_where_drawn
  obtain ⟨q, hq, hnode⟩ := (hdrawn hv .standard).node 0 a ha
  obtain ⟨c', hc', hedge⟩ := (hdrawn hv .standard).edge 0 t ht
  obtain rfl := Option.some.inj (hc.symm.trans hc')
  obtain ⟨j, m, hm, hj, hpick⟩ := (hpicked hv).node 0 a q ha hq hhit
  obtain ⟨k, e, he, hpick'⟩ :=
    (hpicked hv).edge 0 t c ht hc hcurved htolerance 8 (by decide) hfar
  refine ⟨v, q, c, a, t, hv, hnode, ?_, hcurved, hedge, ?_⟩
  · obtain rfl : 0 = j :=
      (List.getElem?_inj (List.getElem?_eq_some_iff.mp hq).1 hapart).mp (hq.trans hj.symm)
    obtain rfl := Option.some.inj (ha.symm.trans hm)
    exact haid ▸ hpick
  · have hmem : e ∈ [t] := hedges ▸ List.mem_of_getElem? he
    obtain rfl := List.mem_singleton.mp hmem
    exact htid ▸ hpick'

end View

end TunnelMap
