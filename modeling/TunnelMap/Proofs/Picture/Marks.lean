import Mathlib.Tactic.SplitIfs
import TunnelMap.Picture.Scene
import TunnelMap.Proofs.Picture.Canvas
import TunnelMap.Proofs.View.Exact

/-! What a drawing leaves on a canvas. Settings outlast the call that gives them, and some are given only
at times, as when there is a ring or an address. Yet each edge and each node comes out the same whatever
was drawn before it: it sets all that it paints with, and leaves the canvas opaque as it found it. -/

namespace TunnelMap

/-- What is drawn by itself: an edge with its particles, or a node with its ring and labels. -/
inductive Entity where
  | edge (i : EdgeIdx) (e : Edge)
  | node (i : NodeIdx) (n : Node)

variable {R S : Type} [Scalar R]

/-- The steps of the path along a curve. -/
def Curve.line (c : Curve R) : List (Call R) :=
  [.moveTo c.start, if c.curved then .quadraticCurveTo c.control c.stop else .lineTo c.stop]

namespace Mark

omit [Scalar R] in
def alpha : Mark R → R
  | filled _ alpha _ | stroked _ alpha _ _ _ | coated _ _ _ alpha _ _ => alpha
  | written _ _ alpha _ _ _ _ _ => alpha

omit [Scalar R] in
def text? : Mark R → Option String
  | written text _ _ _ _ _ _ _ => some text
  | _ => none

end Mark

/-! ### Marks of entities -/

namespace Frame

/-- The marks of an edge: its line, and the particles on the same curve. -/
def edgeMarks (f : Frame R) (i : EdgeIdx) (e : Edge) (t : Placement R) : List (Mark R) :=
  match f.positions[e.source]?, f.positions[e.target]? with
  | some start, some stop =>
    let look := f.edgeLook i e
    let curve := Curve.between start stop look.curvature
    let alpha := f.opacity look.dimmed
    .stroked (curve.line.map (t, ·)) alpha
        (if look.highlighted then f.theme.edgeHighlight else f.theme.edge e.kind) look.width t ::
      (curve.particles look.particles f.flowTime f.edgeSizing.particleSpeed).map fun p =>
        .filled [(t, .circle p look.particleRadius)] alpha f.theme.particle
  | _, _ => []

def ringMarks (f : Frame R) (p : Point R) (radius alpha : R) (t : Placement R) :
    Option Ring → List (Mark R)
  | none => []
  | some ring =>
    [.stroked [(t, .circle p (radius * f.sizes.ringFactor))] alpha
      (match ring with
        | .hovered => f.theme.hoverRing
        | .neighbor => f.theme.neighborRing)
      f.sizes.ringWidth t]

/-- The marks of a name and an address, which fades by itself. -/
def labelMarks (f : Frame R) (n : Node) (x top alpha : R) (t : Placement R) : List (Mark R) :=
  let gap := f.sizes.labelSize * 0.25
  let addressAlpha := alpha * f.sizes.addressAlpha
  .written (n.attrs.name.getD n.id.text) ⟨x, top + gap⟩ alpha f.theme.label f.sizes.labelFont
      "center" "top" t ::
    match n.attrs.address with
    | none => []
    | some address =>
      if leastAlpha < addressAlpha then
        [.written address ⟨x, top + gap * 2 + f.sizes.labelSize⟩ addressAlpha f.theme.address
          f.sizes.addressFont "center" "top" t]
      else []

/-- The marks of a node: its disc, the ring that it has, and its labels. -/
def nodeMarks (f : Frame R) (i : NodeIdx) (n : Node) (t : Placement R) : List (Mark R) :=
  match f.positions[i]? with
  | some p =>
    let look := f.nodeLook i n
    let radius := f.sizes.radiusOf n.kind
    let alpha := f.opacity look.dimmed
    .filled [(t, .circle p radius)] alpha (f.theme.node n.kind) ::
      (f.ringMarks p radius alpha t look.ring ++
        if look.labelled then f.labelMarks n p.x (p.y + radius * f.sizes.ringFactor) alpha t else [])
  | none => []

def drawEntity (f : Frame R) : Entity → List (Call R)
  | .edge i e => f.drawEdge i e
  | .node i n => f.drawNode i n

def entityMarks (f : Frame R) : Entity → Placement R → List (Mark R)
  | .edge i e => f.edgeMarks i e
  | .node i n => f.nodeMarks i n

/-- An entity is faded while others stand out. -/
def fades (f : Frame R) : Entity → Bool
  | .edge i e => (f.edgeLook i e).dimmed
  | .node i n => (f.nodeLook i n).dimmed

/-- A mark has the opacity of its entity, unless it is an address, which fades by itself. -/
def FadesWith (f : Frame R) (x : Entity) (m : Mark R) : Prop :=
  m.alpha = f.opacity (f.fades x) ∨
    ∃ i n address, x = .node i n ∧ n.attrs.address = some address ∧ m.text? = some address ∧
      m.alpha = f.opacity (f.fades x) * f.sizes.addressAlpha

theorem eq_of_mem_ringMarks {f : Frame R} {p : Point R} {radius alpha : R} {t : Placement R}
    {ring : Option Ring} {m : Mark R} (h : m ∈ f.ringMarks p radius alpha t ring) : ∃ style,
      m = .stroked [(t, .circle p (radius * f.sizes.ringFactor))] alpha style f.sizes.ringWidth t := by
  cases ring with
  | none => simp [ringMarks] at h
  | some ring => exact ⟨_, List.mem_singleton.mp h⟩

theorem eq_of_mem_labelMarks {f : Frame R} {n : Node} {x top alpha : R} {t : Placement R}
    {m : Mark R} (h : m ∈ f.labelMarks n x top alpha t) : ∃ text q a style font,
      m = .written text q a style font "center" "top" t ∧
        (a = alpha ∨ n.attrs.address = some text ∧ a = alpha * f.sizes.addressAlpha) := by
  rcases List.mem_cons.mp h with rfl | haddress
  · exact ⟨_, _, _, _, _, rfl, .inl rfl⟩
  · split at haddress
    · simp at haddress
    · next address hn =>
      split_ifs at haddress
      · exact ⟨address, _, _, _, _, List.mem_singleton.mp haddress, .inr ⟨hn, rfl⟩⟩
      · simp at haddress

theorem fadesWith_of_mem_entityMarks {f : Frame R} {x : Entity} {t : Placement R} {m : Mark R}
    (h : m ∈ f.entityMarks x t) : f.FadesWith x m := by
  cases x with
  | edge i e =>
    simp only [entityMarks, edgeMarks] at h
    split at h
    · rcases List.mem_cons.mp h with rfl | hparticle
      · exact .inl rfl
      · obtain ⟨p, -, rfl⟩ := List.mem_map.mp hparticle
        exact .inl rfl
    · simp at h
  | node i n =>
    simp only [entityMarks, nodeMarks] at h
    split at h
    · simp only [List.mem_cons, List.mem_append] at h
      rcases h with rfl | hring | hlabel
      · exact .inl rfl
      · obtain ⟨style, rfl⟩ := eq_of_mem_ringMarks hring
        exact .inl rfl
      · split_ifs at hlabel
        · obtain ⟨text, q, a, style, font, rfl, rfl | ⟨hn, rfl⟩⟩ := eq_of_mem_labelMarks hlabel
          · exact .inl rfl
          · exact .inr ⟨i, n, text, rfl, hn, rfl, rfl⟩
        · simp at hlabel
    · simp at h

/-! ### Drawings of entities -/

section Parts

variable (f : Frame R) (a : R)

theorem draws_curve (style : Color) (width : R) (curve : Curve R) :
    Draws a a ([.strokeStyle style, .lineWidth width] ++ strokeCurve curve) fun t =>
      [.stroked (curve.line.map (t, ·)) a style width t] := by
  intro c hc
  refine ⟨{ c.now with strokeStyle := style, lineWidth := width },
    curve.line.map (c.now.placement, ·), ?_, hc, rfl⟩
  cases hcurved : curve.curved <;>
    simp [strokeCurve, Curve.line, hcurved, hc, Call.run, Canvas.trace, Canvas.paint]

theorem run_discs (c : Canvas R) (radius : R) (points : List (Point R)) :
    ∃ path, c.run (discs radius points) =
      { c with
        path
        marks := c.marks ++ points.map fun p =>
          .filled [(c.now.placement, .circle p radius)] c.now.alpha c.now.fillStyle } := by
  induction points generalizing c with
  | nil => exact ⟨c.path, by simp [discs]⟩
  | cons p points ih =>
    obtain ⟨path, hrun⟩ := ih (c.run [.beginPath, .circle p radius, .fill])
    refine ⟨path, ?_⟩
    rw [discs, List.flatMap_cons, Canvas.run_append]
    exact hrun.trans (by simp [Call.circle, Call.run, Canvas.trace, Canvas.paint])

theorem draws_discs (style : Color) (radius : R) (points : List (Point R)) :
    Draws a a (.fillStyle style :: discs radius points) fun t =>
      points.map fun p => .filled [(t, .circle p radius)] a style := by
  intro c hc
  obtain ⟨path, hrun⟩ := run_discs ((Call.fillStyle style).run c) radius points
  refine ⟨{ c.now with fillStyle := style }, path, ?_, hc, rfl⟩
  rw [Canvas.run_cons, hrun, ← hc]
  rfl

theorem draws_particles (look : EdgeLook R) (curve : Curve R) :
    Draws a a (f.drawParticles look curve) fun t =>
      (curve.particles look.particles f.flowTime f.edgeSizing.particleSpeed).map fun p =>
        .filled [(t, .circle p look.particleRadius)] a f.theme.particle := by
  unfold drawParticles
  split_ifs with hnone
  · rw [hnone]
    exact .nil a
  · exact draws_discs a _ _ _

theorem draws_disc (style : Color) (p : Point R) (radius : R) :
    Draws a a [.beginPath, .circle p radius, .fillStyle style, .fill] fun t =>
      [.filled [(t, .circle p radius)] a style] := by
  intro c hc
  refine ⟨{ c.now with fillStyle := style }, [(c.now.placement, .circle p radius)], ?_, hc, rfl⟩
  simp [hc, Call.circle, Call.run, Canvas.trace, Canvas.paint]

theorem draws_circle (style : Color) (width : R) (p : Point R) (radius : R) :
    Draws a a [.beginPath, .circle p radius, .strokeStyle style, .lineWidth width, .stroke] fun t =>
      [.stroked [(t, .circle p radius)] a style width t] := by
  intro c hc
  refine ⟨{ c.now with strokeStyle := style, lineWidth := width },
    [(c.now.placement, .circle p radius)], ?_, hc, rfl⟩
  simp [hc, Call.circle, Call.run, Canvas.trace, Canvas.paint]

theorem draws_ring (p : Point R) (radius : R) (ring : Option Ring) :
    Draws a a (f.drawRing p radius ring) fun t => f.ringMarks p radius a t ring := by
  rcases ring with _ | _ | _
  · exact .nil a
  · exact draws_circle a _ _ _ _
  · exact draws_circle a _ _ _ _

/-- The name goes by the opacity of the node; the address is given one of its own. -/
theorem draws_labels (n : Node) (x top : R) : ∃ b,
    Draws a b (f.drawLabels n x top a) fun t => f.labelMarks n x top a t := by
  by_cases hseen : leastAlpha < a * f.sizes.addressAlpha
  · cases haddress : n.attrs.address with
    | none =>
      refine ⟨a, fun c hc => ⟨{ c.now with
        textAlign := "center", textBaseline := "top", font := f.sizes.labelFont,
        fillStyle := f.theme.label }, c.path, ?_, hc, rfl⟩⟩
      simp [drawLabels, labelMarks, haddress, hc, Call.run, Canvas.paint]
    | some address =>
      refine ⟨a * f.sizes.addressAlpha, fun c hc => ⟨{ c.now with
        textAlign := "center", textBaseline := "top", font := f.sizes.addressFont,
        fillStyle := f.theme.address, alpha := a * f.sizes.addressAlpha }, c.path, ?_, rfl, rfl⟩⟩
      simp [drawLabels, labelMarks, haddress, hseen, hc, Call.run, Canvas.paint]
  · refine ⟨a, fun c hc => ⟨{ c.now with
      textAlign := "center", textBaseline := "top", font := f.sizes.labelFont,
      fillStyle := f.theme.label }, c.path, ?_, hc, rfl⟩⟩
    cases haddress : n.attrs.address <;>
      simp [drawLabels, labelMarks, haddress, hseen, hc, Call.run, Canvas.paint]

end Parts

theorem draws_edge (f : Frame R) (i : EdgeIdx) (e : Edge) :
    Draws 1 1 (f.drawEdge i e) (f.edgeMarks i e) := by
  unfold drawEdge
  cases hs : f.positions[e.source]? with
  | none => exact (Draws.nil _).congr fun t => by simp only [edgeMarks, hs]
  | some start =>
    cases ht : f.positions[e.target]? with
    | none => exact (Draws.nil _).congr fun t => by simp only [edgeMarks, hs, ht]
    | some stop =>
      let look := f.edgeLook i e
      let curve := Curve.between start stop look.curvature
      let alpha := f.opacity look.dimmed
      have hline := draws_curve alpha
        (if look.highlighted then f.theme.edgeHighlight else f.theme.edge e.kind) look.width curve
      have hparts := hline.append (f.draws_particles alpha look curve)
      refine (hparts.between 1).congr fun t => ?_
      simp only [edgeMarks, hs, ht]
      rfl

theorem draws_node (f : Frame R) (i : NodeIdx) (n : Node) :
    Draws 1 1 (f.drawNode i n) (f.nodeMarks i n) := by
  unfold drawNode
  cases hp : f.positions[i]? with
  | none => exact (Draws.nil _).congr fun t => by simp only [nodeMarks, hp]
  | some p =>
    let look := f.nodeLook i n
    let radius := f.sizes.radiusOf n.kind
    let alpha := f.opacity look.dimmed
    have hbody := (draws_disc alpha (f.theme.node n.kind) p radius).append
      (f.draws_ring alpha p radius look.ring)
    obtain ⟨b, hlabels⟩ := f.draws_labels alpha n p.x (p.y + radius * f.sizes.ringFactor)
    dsimp only
    split_ifs with hlabelled
    · refine ((hbody.append hlabels).between 1).congr fun t => ?_
      simp only [nodeMarks, hp, hlabelled]
      rfl
    · refine ((hbody.append (.nil alpha)).between 1).congr fun t => ?_
      simp only [nodeMarks, hp, hlabelled]
      rfl

theorem draws_entity (f : Frame R) (x : Entity) : Draws 1 1 (f.drawEntity x) (f.entityMarks x) := by
  cases x with
  | edge i e => exact f.draws_edge i e
  | node i n => exact f.draws_node i n

/-! ### Settings of entities -/

theorem selfSet_discs {before : List (Call R)} (halpha : ∃ alpha, .globalAlpha alpha ∈ before)
    (hstyle : ∃ style, .fillStyle style ∈ before) (radius : R) (points : List (Point R)) :
    SelfSet before (discs radius points) := by
  induction points generalizing before with
  | nil => trivial
  | cons p points ih =>
    obtain ⟨alpha, ha⟩ := halpha
    obtain ⟨style, hs⟩ := hstyle
    rw [discs, List.flatMap_cons, selfSet_append]
    refine ⟨⟨trivial, trivial, ⟨⟨alpha, by simp [ha]⟩, by simp, style, by simp [hs]⟩, trivial⟩, ?_⟩
    exact ih ⟨alpha, by simp [ha]⟩ ⟨style, by simp [hs]⟩

theorem selfSet_particles {before : List (Call R)} (halpha : ∃ alpha, .globalAlpha alpha ∈ before)
    (f : Frame R) (look : EdgeLook R) (curve : Curve R) :
    SelfSet before (f.drawParticles look curve) := by
  unfold drawParticles
  split_ifs
  · trivial
  · obtain ⟨alpha, ha⟩ := halpha
    exact ⟨trivial, selfSet_discs ⟨alpha, by simp [ha]⟩ ⟨f.theme.particle, by simp⟩ _ _⟩

theorem selfSet_edge (f : Frame R) (i : EdgeIdx) (e : Edge) : SelfSet [] (f.drawEdge i e) := by
  unfold drawEdge
  split
  · simp only [selfSet_append]
    refine ⟨⟨⟨?_, ?_⟩, selfSet_particles ⟨f.opacity (f.edgeLook i e).dimmed, by simp⟩ _ _ _⟩, ?_⟩
    · simp [SelfSet, Call.Finds]
    · unfold strokeCurve
      split_ifs <;> simp [SelfSet, Call.Finds]
    · simp [SelfSet, Call.Finds]
  · trivial

theorem selfSet_ring {before : List (Call R)} (halpha : ∃ alpha, .globalAlpha alpha ∈ before)
    (f : Frame R) (p : Point R) (radius : R) (ring : Option Ring) :
    SelfSet before (f.drawRing p radius ring) := by
  obtain ⟨alpha, ha⟩ := halpha
  rcases ring with _ | _ | _
  · trivial
  · exact ⟨trivial, trivial, trivial, trivial, ⟨⟨alpha, by simp [ha]⟩, by simp,
      ⟨f.theme.hoverRing, by simp⟩, f.sizes.ringWidth, by simp⟩, trivial⟩
  · exact ⟨trivial, trivial, trivial, trivial, ⟨⟨alpha, by simp [ha]⟩, by simp,
      ⟨f.theme.neighborRing, by simp⟩, f.sizes.ringWidth, by simp⟩, trivial⟩

theorem selfSet_labels {before : List (Call R)} (halpha : ∃ alpha, .globalAlpha alpha ∈ before)
    (f : Frame R) (n : Node) (x top a : R) : SelfSet before (f.drawLabels n x top a) := by
  obtain ⟨alpha, ha⟩ := halpha
  unfold drawLabels
  rw [selfSet_append]
  refine ⟨⟨trivial, trivial, trivial, trivial, ⟨⟨alpha, by simp [ha]⟩, ?_⟩, trivial⟩, ?_⟩
  · simp
  · split
    · trivial
    · split_ifs
      · exact ⟨trivial, trivial, trivial, ⟨⟨alpha, by simp [ha]⟩, ⟨f.theme.address, by simp⟩,
          ⟨f.sizes.addressFont, by simp⟩, ⟨"center", by simp⟩, "top", by simp⟩, trivial⟩
      · trivial

theorem selfSet_node (f : Frame R) (i : NodeIdx) (n : Node) : SelfSet [] (f.drawNode i n) := by
  unfold drawNode
  split
  · let alpha := f.opacity (f.nodeLook i n).dimmed
    simp only [selfSet_append]
    refine ⟨⟨⟨?_, selfSet_ring ⟨alpha, by simp [alpha]⟩ _ _ _ _⟩, ?_⟩, ?_⟩
    · simp [SelfSet, Call.Finds, Call.circle]
    · split_ifs
      · exact selfSet_labels ⟨alpha, by simp [alpha]⟩ _ _ _ _ _
      · trivial
    · simp [SelfSet, Call.Finds]
  · trivial

theorem selfSet_entity (f : Frame R) (x : Entity) : SelfSet [] (f.drawEntity x) := by
  cases x with
  | edge i e => exact f.selfSet_edge i e
  | node i n => exact f.selfSet_node i n

/-- All that a view draws, in order: edges, then the nodes that do not stand out, then those that do. -/
def entities (f : Frame R) (g : Graph) : List Entity :=
  g.edges.zipIdx.map (fun p => .edge p.2 p.1) ++
    (g.nodes.zipIdx.filter fun p => f.isAbove p.2 == false).map (fun p => .node p.2 p.1) ++
    (g.nodes.zipIdx.filter fun p => f.isAbove p.2 == true).map fun p => .node p.2 p.1

omit [Scalar R] in
/-- Each edge and each node of a graph is drawn. -/
theorem mem_entities {f : Frame R} {g : Graph} {x : Entity} : x ∈ f.entities g ↔
    (∃ i e, g.edge? i = some e ∧ x = .edge i e) ∨ ∃ i n, g.node? i = some n ∧ x = .node i n := by
  simp only [entities, List.mem_append, List.mem_map, List.mem_filter, Prod.exists,
    List.mem_zipIdx_iff_getElem?, beq_false, beq_true]
  constructor
  · rintro ((⟨e, i, he, rfl⟩ | ⟨n, i, ⟨hn, -⟩, rfl⟩) | ⟨n, i, ⟨hn, -⟩, rfl⟩)
    · exact .inl ⟨i, e, he, rfl⟩
    · exact .inr ⟨i, n, hn, rfl⟩
    · exact .inr ⟨i, n, hn, rfl⟩
  · rintro (⟨i, e, he, rfl⟩ | ⟨i, n, hn, rfl⟩)
    · exact .inl (.inl ⟨e, i, he, rfl⟩)
    · cases habove : f.isAbove i with
      | false => exact .inl (.inr ⟨n, i, ⟨hn, by simp [habove]⟩, rfl⟩)
      | true => exact .inr ⟨n, i, ⟨hn, habove⟩, rfl⟩

end Frame

/-! ### Views -/

namespace View

/-- What comes before the entities of a view: the background, and the camera. -/
def opening (v : View R S) (theme : Theme R) : List (Call R) :=
  [.fillStyle theme.background, .fillRect .origin v.width v.height, .save,
    .translate v.camera.x v.camera.y, .scale v.camera.k v.camera.k]

/-- Where the entities of a view are put on a canvas with a placement of its own. -/
def under (v : View R S) (t : Placement R) : Placement R :=
  (t.translate v.camera.x v.camera.y).scale v.camera.k v.camera.k

/-- The marks of a view: an opaque background, and the marks of its entities under the camera. -/
def marks (v : View R S) (theme : Theme R) (t : Placement R) : List (Mark R) :=
  .coated .origin v.width v.height 1 theme.background t ::
    ((v.frame theme).entities v.graph).flatMap fun x => (v.frame theme).entityMarks x (v.under t)

theorem draw_eq (v : View R S) (theme : Theme R) :
    v.draw theme = v.opening theme ++
      ((v.frame theme).entities v.graph).flatMap (v.frame theme).drawEntity ++ [.restore] := by
  simp [draw, opening, Frame.entities, Frame.drawEdges, Frame.drawNodes, Frame.drawEntity,
    List.flatMap_map]

theorem run_opening (v : View R S) (theme : Theme R) (c : Canvas R) :
    c.run (v.opening theme) =
      { c with
        now := { c.now with fillStyle := theme.background, placement := v.under c.now.placement }
        saved := { c.now with fillStyle := theme.background } :: c.saved
        marks := c.marks ++
          [.coated .origin v.width v.height c.now.alpha theme.background c.now.placement] } := rfl

theorem draws_view (v : View R S) (theme : Theme R) : Draws 1 1 (v.draw theme) (v.marks theme) := by
  intro c hc
  let f := v.frame theme
  have hentities := Draws.flatMap (f.entities v.graph) fun x _ => f.draws_entity x
  obtain ⟨now, path, hrun, -, -⟩ := hentities (c.run (v.opening theme)) hc
  refine ⟨{ c.now with fillStyle := theme.background }, path, ?_, hc, rfl⟩
  rw [draw_eq, Canvas.run_append, Canvas.run_append, hrun, run_opening]
  simp [Call.run, Canvas.goBack, marks, hc, f]

/-- Every picture starts and ends with an opaque canvas, and so does every entity of a picture, whatever
was drawn before: other pictures, and the entities that come first. Each entity is painted with what it
has set by itself, and leaves marks that go by what it is and by the camera. -/
theorem draws_apart (film : List (View R S × Theme R)) (v : View R S) (theme : Theme R)
    {c : Canvas R} (hc : c.now.alpha = 1) :
    let f := v.frame theme
    let start := c.run (film.flatMap fun p => p.1.draw p.2)
    (start.now.alpha = 1 ∧ (start.run (v.draw theme)).now.alpha = 1) ∧
    v.draw theme = v.opening theme ++ (f.entities v.graph).flatMap f.drawEntity ++ [.restore] ∧
    ∀ before x after, f.entities v.graph = before ++ x :: after →
      let here := start.run (v.opening theme ++ before.flatMap f.drawEntity)
      (here.now.alpha = 1 ∧ (here.run (f.drawEntity x)).now.alpha = 1) ∧
      SelfSet [] (f.drawEntity x) ∧
      (here.run (f.drawEntity x)).marks =
        here.marks ++ f.entityMarks x (v.under c.now.placement) ∧
      ∀ m ∈ f.entityMarks x (v.under c.now.placement), f.FadesWith x m := by
  intro f start
  have hfilm := Draws.flatMap film fun p _ => p.1.draws_view p.2
  have hstart : start.now.alpha = 1 := hfilm.alpha hc
  refine ⟨⟨hstart, (v.draws_view theme).alpha hstart⟩, v.draw_eq theme, fun before x after _ => ?_⟩
  intro here
  have hbefore := Draws.flatMap before fun x _ => f.draws_entity x
  let opened := start.run (v.opening theme)
  have hopened : opened.now.alpha = 1 := hstart
  have hhere : here = opened.run (before.flatMap f.drawEntity) := start.run_append _ _
  have halpha : here.now.alpha = 1 := hhere ▸ hbefore.alpha hopened
  have hplacement : here.now.placement = v.under c.now.placement := by
    calc here.now.placement = opened.now.placement := hhere ▸ hbefore.placement hopened
      _ = v.under start.now.placement := rfl
      _ = v.under c.now.placement := by rw [hfilm.placement hc]
  refine ⟨⟨halpha, (f.draws_entity x).alpha halpha⟩, f.selfSet_entity x, ?_,
    fun m hm => Frame.fadesWith_of_mem_entityMarks hm⟩
  rw [(f.draws_entity x).marks_run halpha, hplacement]

/-- A tunnel, a host with an address, and an interface after it, in the second picture of a view. -/
theorem draws_apart_after_address : ∃ (v : View ℝ ℝ) (c : Canvas ℝ) (x y z : Entity),
    v.Reachable ∧ c.now.alpha = 1 ∧ (v.frame .standard).entities v.graph = [x, y, z] ∧
      let f := v.frame .standard
      let here := (c.run (v.draw .standard)).run
        (v.opening .standard ++ (f.drawEntity x ++ f.drawEntity y))
      here.now.alpha = 1 ∧ SelfSet [] (f.drawEntity z) ∧
        (here.run (f.drawEntity z)).marks = here.marks ++ f.entityMarks z (v.under .plain) := by
  let a : NodeEntry := ⟨⟨"a"⟩, .host, { address := some "10.0.0.1" }⟩
  let b : NodeEntry := ⟨⟨"b"⟩, .interface, {}⟩
  let pair : Graph := .ofParts [a.node, b.node] [⟨⟨"t"⟩, 0, 1, .spoke, {}⟩]
  have hpair : pair.OfSnapshot := ⟨⟨[a, b], [⟨⟨"t"⟩, a.id, b.id, none, {}⟩]⟩, rfl⟩
  obtain ⟨o, ho, -⟩ := exists_standard (S := ℝ) pair
  obtain ⟨sizes, -, hv, -⟩ := start?_eq_some ho
  let settings : Settings ℝ :=
    { alpha := 1
      fillStyle := ⟨0, 0, 0, 1⟩
      strokeStyle := ⟨0, 0, 0, 1⟩
      lineWidth := 1
      textAlign := "start"
      textBaseline := "alphabetic"
      font := sizes.labelFont
      placement := .plain }
  let x : Entity := .edge 0 ⟨⟨"t"⟩, 0, 1, .spoke, {}⟩
  let y : Entity := .node 0 a.node
  let z : Entity := .node 1 b.node
  have hentities : (o.value.frame .standard).entities o.value.graph = [x, y, z] := by
    rw [hv]
    rfl
  obtain ⟨-, -, hapart⟩ :=
    draws_apart [(o.value, .standard)] o.value .standard (c := ⟨settings, [], [], []⟩)
      Nat.cast_one.symm
  obtain ⟨⟨halpha, -⟩, hself, hmarks, -⟩ := hapart [x, y] z [] hentities
  refine ⟨o.value, ⟨settings, [], [], []⟩, x, y, z, .start hpair ho, rfl, hentities, ?_⟩
  simp only [List.flatMap_cons, List.flatMap_nil, List.append_nil] at halpha hmarks
  exact ⟨halpha.trans Nat.cast_one, hself, hmarks⟩

end View

end TunnelMap
