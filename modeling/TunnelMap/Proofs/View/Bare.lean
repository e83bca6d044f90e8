import TunnelMap.Proofs.Graph.Bare
import TunnelMap.Proofs.View.Guard

/-! What is only there to be shown has no part in what a view does. An operation on what is left of a view
leaves what is left of what it leaves of the view, and tells and says the same; so it is with whole runs.
Two runs from snapshots that differ only in what is shown are thus the same to all but the eye. -/

namespace TunnelMap

variable {R S : Type} [Scalar R] [Engine S] [Precision R S]

/-! ### Layouts -/

omit [Scalar R] in
theorem Tuning.orders_bare (t : Tuning R) (g : Graph) : t.orders g.bare = t.orders g := by
  simp only [orders, Graph.bare, List.zipIdx_map, List.map_map]
  rfl

namespace Layout

theorem ofGraph_bare (g : Graph) (t : Tuning R) :
    (ofGraph g.bare t : Layout R S) = ofGraph g t := by
  have hlinks : g.bare.edges.map (linkOf t g.bare) = g.edges.map (linkOf t g) := List.map_map
  simp only [ofGraph, hlinks, Graph.length_nodes_bare]

omit [Engine S] [Precision R S] in
theorem tune_bare (l : Layout R S) (t : Tuning R) (g : Graph) : l.tune t g.bare = l.tune t g := by
  rw [tune, Tuning.orders_bare, tune]

theorem tuneNotices_bare (g : Graph) : tuneNotices g.bare = tuneNotices g := by
  simp only [tuneNotices, Graph.length_nodes_bare, Graph.length_edges_bare]

omit [Scalar R] [Engine S] in
theorem carryOver_bare (l : Layout R S) (g previousGraph : Graph) (previous : Layout R S) :
    l.carryOver g.bare previousGraph.bare previous = l.carryOver g previousGraph previous := by
  have hmemory : (g.bare.nodes.map fun n => previous.remembered previousGraph.bare n.id) =
      g.nodes.map fun n => previous.remembered previousGraph n.id := List.map_map
  simp only [carryOver, hmemory]

end Layout

def Operation.bare : Operation R S → Operation R S
  | .replace g => .replace g.bare
  | op => op

namespace View

def bare (v : View R S) : View R S := { v with graph := v.graph.bare }

/-! ### What is under the pointer -/

omit [Engine S] [Precision R S] in
theorem nodesNear_bare (v : View R S) (p : Point R) : v.bare.nodesNear p = v.nodesNear p := by
  have hnodes : v.bare.graph.nodes = v.graph.nodes.map .bare := rfl
  rw [nodesNear, hnodes, List.zipIdx_map, List.filterMap_map]
  rfl

omit [Engine S] [Precision R S] in
theorem edgesNear_bare (v : View R S) (p : Point R) : v.bare.edgesNear p = v.edgesNear p := by
  have hedges : v.bare.graph.edges = v.graph.edges.map .bare := rfl
  rw [edgesNear, hedges, List.zipIdx_map, List.filterMap_map]
  rfl

omit [Engine S] [Precision R S] in
@[simp] theorem nodeAt?_bare (v : View R S) (p : Point R) : v.bare.nodeAt? p = v.nodeAt? p := by
  rw [nodeAt?, nodesNear_bare, nodeAt?]

omit [Engine S] [Precision R S] in
@[simp] theorem edgeAt?_bare (v : View R S) (p : Point R) : v.bare.edgeAt? p = v.edgeAt? p := by
  rw [edgeAt?, edgesNear_bare, edgeAt?]

omit [Engine S] [Precision R S] in
@[simp] theorem pick_bare (v : View R S) (p : Point R) : v.bare.pick p = v.pick p := by
  have hnode : (v.bare.nodeAt? p).bind v.bare.graph.node? =
      ((v.nodeAt? p).bind v.graph.node?).map .bare := by
    rw [nodeAt?_bare, Option.map_bind]
    exact congrArg _ (funext v.graph.node?_bare)
  have hedge : (v.bare.edgeAt? p).bind v.bare.graph.edge? =
      ((v.edgeAt? p).bind v.graph.edge?).map .bare := by
    rw [edgeAt?_bare, Option.map_bind]
    exact congrArg _ (funext v.graph.edge?_bare)
  rw [pick, pick, hnode, hedge]
  cases (v.nodeAt? p).bind v.graph.node? with
  | some n => rfl
  | none => cases (v.edgeAt? p).bind v.graph.edge? <;> rfl

/-! ### Single operations -/

theorem start?_bare (g : Graph) (tuning : Tuning R) (sizing : Sizing R) (width height : R) :
    (start? g.bare tuning sizing width height : Option (Outcome (View R S))) =
      (start? g tuning sizing width height).map (.map bare) := by
  simp only [start?, Layout.ofGraph_bare, Layout.tune_bare, Layout.tuneNotices_bare,
    Graph.length_nodes_bare, Graph.length_edges_bare]
  cases sizing.sizesAt? 1 <;> rfl

omit [Engine S] [Precision R S] in
theorem press_bare (v : View R S) (p : Point R) : v.bare.press p = (v.press p).bare := by
  rw [press, press, nodeAt?_bare]
  cases v.nodeAt? p <;> rfl

omit [Engine S] [Precision R S] in
theorem track_bare (v : View R S) (start p : Point R) :
    v.bare.track start p = (v.track start p).bare := by
  simp only [track, apply_ite bare]
  rfl

omit [Engine S] in
theorem dragTo_bare (v : View R S) (p : Point R) : v.bare.dragTo p = (v.dragTo p).map bare := by
  have htrack : v.bare.track v.bare.drag.start p = (v.track v.drag.start p).bare :=
    v.track_bare v.drag.start p
  have hnode : (v.track v.drag.start p).bare.drag.node = (v.track v.drag.start p).drag.node := rfl
  simp only [dragTo, htrack, hnode]
  cases (v.track v.drag.start p).drag.node with
  | some i =>
    simp only [apply_ite (Outcome.map bare)]
    rfl
  | none => rfl

omit [Engine S] [Precision R S] in
theorem panTo_bare (v : View R S) (p : Point R) : v.bare.panTo p = (v.panTo p).bare := by
  have htrack : v.bare.track v.bare.pan.start p = (v.track v.pan.start p).bare :=
    v.track_bare v.pan.start p
  simp only [panTo, htrack, apply_ite bare]
  rfl

omit [Engine S] in
theorem point_bare (v : View R S) (p : Point R) : v.bare.point p = (v.point p).map bare := by
  have hdrag : v.bare.drag = v.drag := rfl
  rw [point, point, hdrag]
  split_ifs
  · exact v.dragTo_bare p
  · have hmove : (v.panTo p).bare.hover.move (v.panTo p).bare.graph ((v.panTo p).pick p) =
        (v.panTo p).hover.move (v.panTo p).graph ((v.panTo p).pick p) := Hover.move_bare ..
    dsimp only
    rw [panTo_bare, pick_bare, hmove]
    rfl

omit [Engine S] [Precision R S] in
theorem lift_bare (v : View R S) (p : Point R) : v.bare.lift p = (v.lift p).map bare := by
  have hclick (t : Target) : v.bare.graph.click t = v.graph.click t := v.graph.click_bare t
  rw [lift, pick_bare, hclick]
  rfl

omit [Engine S] [Precision R S] in
theorem exit_bare (v : View R S) : v.bare.exit = v.exit.map bare := by
  have hleave : v.bare.hover.leave v.bare.graph = v.hover.leave v.graph := v.hover.leave_bare v.graph
  rw [exit, hleave]
  rfl

omit [Engine S] [Precision R S] in
theorem refresh?_bare (v : View R S) : v.bare.refresh? = v.refresh?.map bare := by
  simp only [refresh?, apply_ite (Option.map bare), Option.map_map]
  rfl

theorem tick?_bare (v : View R S) (dt : S) : v.bare.tick? dt = (v.tick? dt).map bare := by
  rw [tick?, tick?, refresh?_bare]
  cases v.refresh? <;> rfl

omit [Engine S] [Precision R S] in
theorem zoomAt?_bare (v : View R S) (p : Point R) (turn : R) :
    v.bare.zoomAt? p turn = (v.zoomAt? p turn).map bare :=
  refresh?_bare { v with camera := v.camera.zoomAt p turn }

omit [Engine S] [Precision R S] in
theorem retune_bare (v : View R S) (tuning : Tuning R) :
    v.bare.retune tuning = (v.retune tuning).map bare := by
  have hlayout : v.bare.layout.tune tuning v.bare.graph = v.layout.tune tuning v.graph :=
    Layout.tune_bare ..
  have hnotices : Layout.tuneNotices v.bare.graph = Layout.tuneNotices v.graph :=
    Layout.tuneNotices_bare _
  rw [retune, hlayout, hnotices]
  rfl

theorem replace_bare (v : View R S) (g : Graph) : v.bare.replace g.bare = (v.replace g).map bare := by
  have hcarry (l : Layout R S) : l.carryOver g.bare v.bare.graph v.bare.layout =
      l.carryOver g v.graph v.layout := Layout.carryOver_bare ..
  have hhover : v.bare.hover.rebind g.bare = v.hover.rebind g := Hover.rebind_bare ..
  simp only [replace, Layout.ofGraph_bare, hcarry, hhover, Layout.tune_bare, Layout.tuneNotices_bare,
    Graph.length_nodes_bare, Graph.length_edges_bare]
  rfl

/-- An operation goes on in what is left of a view as it goes on in the view. -/
theorem perform?_bare (v : View R S) (op : Operation R S) :
    v.bare.perform? op.bare = (v.perform? op).map (.map bare) := by
  cases op with
  | press p =>
    change some ({ value := v.bare.press p } : Outcome (View R S)) = _
    rw [press_bare]
    rfl
  | point p => exact congrArg some (v.point_bare p)
  | lift p => exact congrArg some (v.lift_bare p)
  | exit => exact congrArg some v.exit_bare
  | zoom p turn =>
    change (v.bare.zoomAt? p turn).map _ = _
    rw [zoomAt?_bare, perform?, Option.map_map, Option.map_map]
    rfl
  | tick dt =>
    change (v.bare.tick? dt).map _ = _
    rw [tick?_bare, perform?, Option.map_map, Option.map_map]
    rfl
  | resize width height => rfl
  | retune tuning => exact congrArg some (v.retune_bare tuning)
  | replace g => exact congrArg some (v.replace_bare g)

end View

/-! ### Runs -/

namespace Outcome

theorem perform?_bare (o : Outcome (View R S)) (op : Operation R S) :
    (o.map View.bare).perform? op.bare = (o.perform? op).map (.map View.bare) := by
  change ((o.value.bare).perform? op.bare).map _ = _
  rw [View.perform?_bare, perform?, Option.map_map, Option.map_map]
  rfl

theorem run?_bare (o : Outcome (View R S)) (ops : List (Operation R S)) :
    (o.map View.bare).run? (ops.map .bare) = (o.run? ops).map (.map View.bare) := by
  induction ops generalizing o with
  | nil => rfl
  | cons op ops ih =>
    unfold run? at ih ⊢
    rw [List.map_cons, List.foldlM_cons, List.foldlM_cons, perform?_bare]
    cases o.perform? op with
    | none => rfl
    | some m => exact ih m

theorem start?_run?_bare (g : Graph) (tuning : Tuning R) (sizing : Sizing R) (width height : R)
    (ops : List (Operation R S)) :
    (View.start? g.bare tuning sizing width height).bind (·.run? (ops.map .bare)) =
      ((View.start? g tuning sizing width height).bind (·.run? ops)).map (.map View.bare) := by
  rw [View.start?_bare]
  cases View.start? (S := S) g tuning sizing width height with
  | none => rfl
  | some o => exact o.run?_bare ops

/-- Two outcomes that are the same in all but what is only there to be shown: the layout with its places,
pins and heat, what is under each point, the hover with what stands out, the camera, what the pointer
holds, and what was told and said. -/
structure Indistinct (o o' : Outcome (View R S)) : Prop where
  layout : o.value.layout = o'.value.layout
  pick : ∀ p, o.value.pick p = o'.value.pick p
  nodeAt? : ∀ p, o.value.nodeAt? p = o'.value.nodeAt? p
  edgeAt? : ∀ p, o.value.edgeAt? p = o'.value.edgeAt? p
  hover : o.value.hover = o'.value.hover
  camera : o.value.camera = o'.value.camera
  sizes : o.value.sizes = o'.value.sizes
  drag : o.value.drag = o'.value.drag
  pan : o.value.pan = o'.value.pan
  moved : o.value.moved = o'.value.moved
  width : o.value.width = o'.value.width
  height : o.value.height = o'.value.height
  flowTime : o.value.flowTime = o'.value.flowTime
  tuning : o.value.tuning = o'.value.tuning
  sizing : o.value.sizing = o'.value.sizing
  events : o.events = o'.events
  notices : o.notices = o'.notices

omit [Engine S] [Precision R S] in
theorem indistinct_of_bare {o o' : Outcome (View R S)} (h : o.map View.bare = o'.map View.bare) :
    o.Indistinct o' := by
  obtain ⟨hview, hevents, hnotices⟩ := Outcome.mk.inj h
  have field {α : Type} (f : View R S → α) : f o.value.bare = f o'.value.bare := congrArg f hview
  exact {
    layout := field View.layout
    pick := fun p => by rw [← View.pick_bare, hview, View.pick_bare]
    nodeAt? := fun p => by rw [← View.nodeAt?_bare, hview, View.nodeAt?_bare]
    edgeAt? := fun p => by rw [← View.edgeAt?_bare, hview, View.edgeAt?_bare]
    hover := field View.hover
    camera := field View.camera
    sizes := field View.sizes
    drag := field View.drag
    pan := field View.pan
    moved := field View.moved
    width := field View.width
    height := field View.height
    flowTime := field View.flowTime
    tuning := field View.tuning
    sizing := field View.sizing
    events := hevents
    notices := hnotices }

omit [Engine S] [Precision R S] in
theorem rel_of_bare {last? last'? : Option (Outcome (View R S))}
    (h : last?.map (map View.bare) = last'?.map (map View.bare)) : Option.Rel Indistinct last? last'? := by
  cases last? with
  | none =>
    obtain rfl := Option.map_eq_none_iff.mp h.symm
    exact .none
  | some o =>
    obtain ⟨o', rfl, ho⟩ := Option.map_eq_some_iff.mp h.symm
    exact .some (indistinct_of_bare ho.symm)

end Outcome

/-- The same operation, or graphs of two snapshots that differ only in what is shown. -/
inductive Operation.Twin : Operation R S → Operation R S → Prop
  | same (op : Operation R S) : Twin op op
  | replace {s s' : Snapshot} {g g' : Graph} : s.bare = s'.bare → s.build.result = .ok g →
      s'.build.result = .ok g' → Twin (.replace g) (.replace g')

/-- Snapshots that differ only in what is shown have the same faults, or graphs that differ only so. -/
theorem Snapshot.build_congr {s s' : Snapshot} (h : s.bare = s'.bare) :
    s.build.notices = s'.build.notices ∧
      ((∃ e, s.build.result = .error e ∧ s'.build.result = .error e) ∨
        ∃ g g', s.build.result = .ok g ∧ s'.build.result = .ok g' ∧ g.bare = g'.bare) := by
  have hbuild := s.build_bare
  rw [h, s'.build_bare] at hbuild
  obtain ⟨hnotices, hresult⟩ := Graph.Built.mk.inj hbuild
  refine ⟨hnotices.symm, ?_⟩
  generalize s.build.result = built at hresult ⊢
  generalize s'.build.result = built' at hresult ⊢
  cases built with
  | error e =>
    cases built' with
    | error e' => exact .inl ⟨e, rfl, hresult⟩
    | ok g' => cases hresult
  | ok g =>
    cases built' with
    | error e' => cases hresult
    | ok g' => exact .inr ⟨g, g', rfl, rfl, (Except.ok.inj hresult).symm⟩

omit [Scalar R] [Engine S] [Precision R S] in
theorem Operation.Twin.bare_eq {op op' : Operation R S} (h : op.Twin op') : op.bare = op'.bare := by
  cases h with
  | same => rfl
  | replace h hg hg' =>
    rcases (Snapshot.build_congr h).2 with ⟨e, he, -⟩ | ⟨f, f', hf, hf', hbare⟩
    · cases hg.symm.trans he
    · obtain rfl := Except.ok.inj (hg.symm.trans hf)
      obtain rfl := Except.ok.inj (hg'.symm.trans hf')
      exact congrArg Operation.replace hbare

omit [Scalar R] [Engine S] [Precision R S] in
theorem Operation.map_bare_of_twins {ops ops' : List (Operation R S)}
    (h : List.Forall₂ Twin ops ops') : ops.map bare = ops'.map bare := by
  have hbare : List.Forall₂ (fun op op' => op.bare = op'.bare) ops ops' :=
    h.imp fun _ _ => Twin.bare_eq
  rwa [← List.forall₂_eq_eq_eq, List.forall₂_map_left_iff, List.forall₂_map_right_iff]

/-- What is only there to be shown has no part in what is done. Of two snapshots that differ in nothing else
both have a graph or both have the same fault, and the same is said of both. Runs on the two graphs through
the same operations, where other graphs that come in may differ so as well, are the same at every step, in
all but what is shown. -/
theorem Snapshot.runs_indistinct {s s' : Snapshot} (h : s.bare = s'.bare) :
    s.build.notices = s'.build.notices ∧
      ((∃ e, s.build.result = .error e ∧ s'.build.result = .error e) ∨
        ∃ g g', s.build.result = .ok g ∧ s'.build.result = .ok g' ∧
          ∀ (tuning : Tuning R) (sizing : Sizing R) (width height : R)
            (ops ops' : List (Operation R S)), List.Forall₂ Operation.Twin ops ops' → ∀ n,
            Option.Rel Outcome.Indistinct
              ((View.start? g tuning sizing width height).bind (·.run? (ops.take n)))
              ((View.start? g' tuning sizing width height).bind (·.run? (ops'.take n)))) := by
  obtain ⟨hnotices, herror | ⟨g, g', hg, hg', hbare⟩⟩ := build_congr h
  · exact ⟨hnotices, .inl herror⟩
  refine ⟨hnotices, .inr ⟨g, g', hg, hg', fun tuning sizing width height ops ops' hops n => ?_⟩⟩
  refine Outcome.rel_of_bare ?_
  rw [← Outcome.start?_run?_bare, ← Outcome.start?_run?_bare, hbare,
    Operation.map_bare_of_twins (List.forall₂_take n hops)]

/-- A tunnel under two sets of names and ranges, and a host that comes in with an address or without. -/
theorem Snapshot.runs_indistinct_renamed :
    let run (g other : Graph) : Option (Outcome (View Float Float32)) :=
      (View.start? g .standard .standard 800 600).bind
        (·.run? [.press ⟨414, 300⟩, .point ⟨440, 300⟩, .tick 0.01, .zoom ⟨400, 300⟩ 1, .replace other])
    ∃ (s s' t t' : Snapshot) (g g' h h' : Graph) (r r' : Outcome (View Float Float32)),
      s.bare = s'.bare ∧ t.bare = t'.bare ∧ s.build.result = .ok g ∧ s'.build.result = .ok g' ∧
      t.build.result = .ok h ∧ t'.build.result = .ok h' ∧
      g.nodes.map (·.attrs.name) = [some "wg0", none] ∧
      g'.nodes.map (·.attrs.name) = [some "wg1", some "wg2"] ∧
      g.edges.map (·.attrs.allowedIps) = [["10.0.0.0/8"]] ∧ g'.edges.map (·.attrs.allowedIps) = [[]] ∧
      h.nodes.map (·.attrs.address) = [some "10.0.0.1"] ∧ h'.nodes.map (·.attrs.address) = [none] ∧
      run g h = some r ∧ run g' h' = some r' ∧ r.Indistinct r' := by
  intro run
  let s : Snapshot :=
    { nodes := [⟨⟨"a"⟩, .interface, { name := some "wg0" }⟩, ⟨⟨"b"⟩, .interface, {}⟩]
      edges := [⟨⟨"t"⟩, ⟨"a"⟩, ⟨"b"⟩, none, { allowedIps := ["10.0.0.0/8"], keepalive := some 25 }⟩] }
  let s' : Snapshot :=
    { nodes := [⟨⟨"a"⟩, .interface, { name := some "wg1" }⟩, ⟨⟨"b"⟩, .interface, { name := some "wg2" }⟩]
      edges := [⟨⟨"t"⟩, ⟨"a"⟩, ⟨"b"⟩, none, {}⟩] }
  let t : Snapshot := { nodes := [⟨⟨"c"⟩, .host, { address := some "10.0.0.1" }⟩] }
  let t' : Snapshot := { nodes := [⟨⟨"c"⟩, .host, {}⟩] }
  have hs : s.bare = s'.bare := rfl
  have ht : t.bare = t'.bare := rfl
  obtain ⟨g, hg, hname, hips⟩ : ∃ g, s.build.result = .ok g ∧
      g.nodes.map (·.attrs.name) = [some "wg0", none] ∧
      g.edges.map (·.attrs.allowedIps) = [["10.0.0.0/8"]] := ⟨_, rfl, rfl, rfl⟩
  obtain ⟨g', hg', hname', hips'⟩ : ∃ g', s'.build.result = .ok g' ∧
      g'.nodes.map (·.attrs.name) = [some "wg1", some "wg2"] ∧
      g'.edges.map (·.attrs.allowedIps) = [[]] := ⟨_, rfl, rfl, rfl⟩
  obtain ⟨h, hh, haddress⟩ : ∃ h, t.build.result = .ok h ∧
      h.nodes.map (·.attrs.address) = [some "10.0.0.1"] := ⟨_, rfl, rfl⟩
  obtain ⟨h', hh', haddress'⟩ : ∃ h', t'.build.result = .ok h' ∧
      h'.nodes.map (·.attrs.address) = [none] := ⟨_, rfl, rfl⟩
  obtain ⟨-, ⟨e, he, -⟩ | ⟨f, f', hf, hf', hruns⟩⟩ := runs_indistinct (R := Float) (S := Float32) hs
  · cases hg.symm.trans he
  obtain rfl := Except.ok.inj (hg.symm.trans hf)
  obtain rfl := Except.ok.inj (hg'.symm.trans hf')
  have hsame : Option.Rel Outcome.Indistinct (run g h) (run g' h') :=
    hruns .standard .standard 800 600 _ _ (.cons (.same _) (.cons (.same _) (.cons (.same _)
      (.cons (.same _) (.cons (.replace ht hh hh') .nil))))) 5
  obtain ⟨o, ho⟩ : ∃ o : Outcome (View Float Float32),
      View.start? g .standard .standard 800 600 = some o := ⟨_, rfl⟩
  obtain ⟨r, hr⟩ : ∃ r, run g h = some r := by
    have hreach : o.value.Reachable := .start ⟨s, hg⟩ ho
    simp only [run, ho, Option.bind_some]
    refine hreach.exists_run? ?_
    simpa [Operation.FromSnapshot] using ⟨t, hh⟩
  generalize hr' : run g' h' = r'? at hsame
  rw [hr] at hsame
  cases hsame with
  | some hsame => exact ⟨s, s', t, t', g, g', h, h', r, _, hs, ht, hg, hg', hh, hh', hname, hname', hips,
      hips', haddress, haddress', hr, hr', hsame⟩

end TunnelMap
