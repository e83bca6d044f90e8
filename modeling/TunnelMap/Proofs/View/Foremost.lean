import TunnelMap.Proofs.Scalar.Order
import TunnelMap.Proofs.View.Fit
import TunnelMap.Proofs.View.Pan
import TunnelMap.Proofs.View.Pick

/-! What the pointer finds, against what is near. A node is near by the radius of its own kind, an edge by
the tolerance for all edges, and distances that pass these tests are numbers. So in binary floating point,
as in exact arithmetic, the choice among them is the first of least distance, and entries are taken in the
order of their indices. What is not near is never among them, so it is in nobody's way. -/

namespace TunnelMap

variable {R S K : Type} [Scalar R] [LinearOrder K] {rank : R → K}

/-- Of what is near, the first of least distance. -/
structure Foremost (near : ℕ → R → Prop) (i : ℕ) (d : R) : Prop where
  found : near i d
  le : ∀ j e, near j e → d ≤ e
  first : ∀ j e, near j e → e ≤ d → i ≤ j

omit [Scalar R] in
/-- Entries that keep the indices of what they are made from are in their order. -/
theorem pairwise_filterMap_zipIdx {α : Type} {made? : α × ℕ → Option (ℕ × R)}
    (hmade : ∀ x b, made? x = some b → b.1 = x.2) (xs : List α) :
    (xs.zipIdx.filterMap made?).Pairwise fun x y => x.1 < y.1 := by
  have hindices : xs.zipIdx.Pairwise fun x y => x.2 < y.2 := by
    rw [← List.pairwise_map (f := Prod.snd), List.zipIdx_map_snd]
    exact List.pairwise_lt_range'
  refine hindices.filterMap made? fun x y hxy b hb b' hb' => ?_
  rwa [hmade x b hb, hmade y b' hb']

/-- Of two entries with their indices in order, the earlier one has the lower index. -/
theorem index_le_of_idxOf_le {α : Type} [DecidableEq α] {index : α → ℕ} {found : List α}
    (hsorted : found.Pairwise fun x y => index x < index y) {x y : α} (hx : x ∈ found)
    (hy : y ∈ found) (h : found.idxOf x ≤ found.idxOf y) : index x ≤ index y := by
  have hxi := List.idxOf_lt_length_of_mem hx
  have hyi := List.idxOf_lt_length_of_mem hy
  obtain hlt | heq := h.lt_or_eq
  · have hindex := List.pairwise_iff_getElem.mp hsorted _ _ hxi hyi hlt
    rw [List.getElem_idxOf, List.getElem_idxOf] at hindex
    exact hindex.le
  · rw [(List.idxOf_inj hx).mp heq]

/-- What is chosen from entries with their indices in order is the first of least distance. -/
theorem Ranked.exists_foremost (hr : Ranked rank) {found : List (ℕ × R)} {near : ℕ → R → Prop}
    (hfound : ∀ i d, (i, d) ∈ found ↔ near i d) (hnumber : ∀ i d, near i d → d ≤ d)
    (hsorted : found.Pairwise fun x y => x.1 < y.1) (h : ∃ i d, near i d) :
    ∃ i d, nearest found = some i ∧ Foremost near i d := by
  classical
  obtain ⟨j, e, hj⟩ := h
  have hne : found ≠ [] := List.ne_nil_of_mem ((hfound j e).mpr hj)
  obtain ⟨b, hb⟩ := Option.ne_none_iff_exists'.mp
    (mt (List.argmin_eq_none (f := fun x : ℕ × R => rank x.2)).mp hne)
  obtain ⟨hmem, hleast, hfirst⟩ := List.mem_argmin_iff.mp (Option.mem_def.mpr hb)
  have hself : ∀ x ∈ found, x.2 ≤ x.2 := fun x hx => hnumber x.1 x.2 ((hfound _ _).mp hx)
  refine ⟨b.1, b.2, by rw [hr.nearest_eq_argmin hself, hb, Option.map_some], (hfound _ _).mp hmem,
    fun j e hj => ?_, fun j e hj hle => ?_⟩
  · exact (hr.le_iff (hself _ hmem) (hnumber j e hj)).mpr (hleast _ ((hfound j e).mpr hj))
  · have hrank : rank e ≤ rank b.2 := (hr.le_iff (hnumber j e hj) (hself _ hmem)).mp hle
    exact index_le_of_idxOf_le hsorted hmem ((hfound j e).mpr hj) (hfirst _ ((hfound j e).mpr hj) hrank)

/-- The numbers that the program runs on are ordered by their places. -/
theorem ranked_binary : Ranked fun x : Float => Binary.key x.toModel.unpack where
  number_of_lt := Binary.le_self_of_lt
  number_of_le h := (Binary.isNumber_of_le h).imp Binary.le_self Binary.le_self
  lt_iff hx hy := Binary.lt_iff_key (Binary.isNumber_of_le hx).1 (Binary.isNumber_of_le hy).1
  le_iff hx hy := Binary.le_iff_key (Binary.isNumber_of_le hx).1 (Binary.isNumber_of_le hy).1

namespace View

/-! ### What is near -/

/-- A node is closer to the point that the pointer shows than the radius of its kind. -/
def NodeNear (v : View R S) (p : Point R) (i : NodeIdx) (d : R) : Prop :=
  ∃ n q, v.graph.node? i = some n ∧ v.layout.positions[i]? = some q ∧
    d = q.dist (v.camera.toWorld p) ∧ d < v.sizes.hitRadiusOf n.kind

/-- The curve of an edge is within the tolerance of the point that the pointer shows. -/
def EdgeNear (v : View R S) (p : Point R) (i : EdgeIdx) (d : R) : Prop :=
  ∃ e c, v.graph.edge? i = some e ∧ v.curve? e = some c ∧
    d = c.distanceTo (v.camera.toWorld p) ∧ d ≤ v.sizes.edgeHitTolerance

theorem nodesNear_pairwise (v : View R S) (p : Point R) :
    (v.nodesNear p).Pairwise fun x y => x.1 < y.1 := by
  refine pairwise_filterMap_zipIdx (fun x b hb => ?_) v.graph.nodes
  obtain ⟨q, -, hq⟩ := Option.bind_eq_some_iff.mp hb
  dsimp only at hq
  split_ifs at hq
  rw [← Option.some.inj hq]

theorem edgesNear_pairwise (v : View R S) (p : Point R) :
    (v.edgesNear p).Pairwise fun x y => x.1 < y.1 := by
  refine pairwise_filterMap_zipIdx (fun x b hb => ?_) v.graph.edges
  obtain ⟨c, -, hc⟩ := Option.bind_eq_some_iff.mp hb
  dsimp only at hc
  split_ifs at hc
  rw [← Option.some.inj hc]

section

variable (hr : Ranked rank) {v : View R S} {p : Point R}

include hr

theorem exists_nodeAt? (h : ∃ i d, v.NodeNear p i d) :
    ∃ i d, v.nodeAt? p = some i ∧ Foremost (v.NodeNear p) i d := by
  refine hr.exists_foremost (fun _ _ => mem_nodesNear) (fun i d hd => ?_) (v.nodesNear_pairwise p) h
  obtain ⟨_, _, -, -, -, hlt⟩ := hd
  exact (hr.number_of_lt hlt).1

theorem exists_edgeAt? (h : ∃ i d, v.EdgeNear p i d) :
    ∃ i d, v.edgeAt? p = some i ∧ Foremost (v.EdgeNear p) i d := by
  refine hr.exists_foremost (fun _ _ => mem_edgesNear) (fun i d hd => ?_) (v.edgesNear_pairwise p) h
  obtain ⟨_, _, -, -, -, hle⟩ := hd
  exact (hr.number_of_le hle).1

end

theorem nodeAt?_of_none_near {v : View R S} {p : Point R} (h : ¬ ∃ i d, v.NodeNear p i d) :
    v.nodeAt? p = none :=
  nodeAt?_eq_none (List.eq_nil_iff_forall_not_mem.mpr fun x hx =>
    h ⟨x.1, x.2, mem_nodesNear.mp hx⟩)

theorem edgeAt?_of_none_near {v : View R S} {p : Point R} (h : ¬ ∃ i d, v.EdgeNear p i d) :
    v.edgeAt? p = none := by
  have hnil : v.edgesNear p = [] := List.eq_nil_iff_forall_not_mem.mpr fun x hx =>
    h ⟨x.1, x.2, mem_edgesNear.mp hx⟩
  rw [edgeAt?, hnil]
  rfl

theorem pick_of_none_near {v : View R S} {p : Point R} (h : ¬ ∃ i d, v.NodeNear p i d)
    (h' : ¬ ∃ i d, v.EdgeNear p i d) : v.pick p = .nothing := by
  rw [pick, nodeAt?_of_none_near h, edgeAt?_of_none_near h']
  rfl

/-! ### What is picked -/

/-- The pointer picks the first of the nearest nodes that are near, else the first of the nearest edges,
else nothing; what it picks has its id in the graph. All nodes have places and all edges have curves. -/
structure PicksForemost (v : View R S) (p : Point R) : Prop where
  placed : ∀ i n, v.graph.node? i = some n → ∃ q, v.layout.positions[i]? = some q
  drawn : ∀ i e, v.graph.edge? i = some e → ∃ c, v.curve? e = some c
  node : (∃ i d, v.NodeNear p i d) → ∃ i n d, v.graph.node? i = some n ∧
    Foremost (v.NodeNear p) i d ∧ v.pick p = .node n.id ∧ v.graph.nodeIdx? n.id = some i
  edge : (¬ ∃ i d, v.NodeNear p i d) → (∃ i d, v.EdgeNear p i d) → ∃ i e d,
    v.graph.edge? i = some e ∧ Foremost (v.EdgeNear p) i d ∧ v.pick p = .edge e.id ∧
      v.graph.edgeIdx? e.id = some i
  nothing : (¬ ∃ i d, v.NodeNear p i d) → (¬ ∃ i d, v.EdgeNear p i d) → v.pick p = .nothing
  /-- A node that is not near is not picked, however near the others are. -/
  outside : ∀ i n, v.graph.node? i = some n → (¬ ∃ d, v.NodeNear p i d) → v.pick p ≠ .node n.id

variable [Engine S] [Precision R S]

section

variable (hr : Ranked rank) {v : View R S} (hv : v.Reachable) {p : Point R}

include hr hv

theorem Reachable.pick_node (h : ∃ i d, v.NodeNear p i d) : ∃ i n d, v.graph.node? i = some n ∧
    Foremost (v.NodeNear p) i d ∧ v.pick p = .node n.id ∧ v.graph.nodeIdx? n.id = some i := by
  obtain ⟨i, d, hi, hfore⟩ := exists_nodeAt? hr h
  obtain ⟨n, -, hn, -⟩ := hfore.found
  exact ⟨i, n, d, hn, hfore, pick_of_nodeAt? hi hn, hv.sound.nodeIdx?_eq_some.mpr ⟨n, hn, rfl⟩⟩

theorem Reachable.pick_edge (h : ¬ ∃ i d, v.NodeNear p i d) (h' : ∃ i d, v.EdgeNear p i d) :
    ∃ i e d, v.graph.edge? i = some e ∧ Foremost (v.EdgeNear p) i d ∧ v.pick p = .edge e.id ∧
      v.graph.edgeIdx? e.id = some i := by
  obtain ⟨i, d, hi, hfore⟩ := exists_edgeAt? hr h'
  obtain ⟨e, -, he, -⟩ := hfore.found
  exact ⟨i, e, d, he, hfore, pick_of_edgeAt? (nodeAt?_of_none_near h) hi he,
    hv.sound.edgeIdx?_eq_some.mpr ⟨e, he, rfl⟩⟩

/-- Ids are given once, so a node that is picked is near itself, and not another of its id. -/
theorem Reachable.near_of_pick {i : NodeIdx} {n : Node} (hn : v.graph.node? i = some n)
    (h : v.pick p = .node n.id) : ∃ d, v.NodeNear p i d := by
  by_cases hnear : ∃ i d, v.NodeNear p i d
  · obtain ⟨j, m, d, -, hfore, hpicked, hj⟩ := hv.pick_node hr hnear
    have hid : n.id = m.id := Target.node.inj (h.symm.trans hpicked)
    have hi : v.graph.nodeIdx? m.id = some i := hv.sound.nodeIdx?_eq_some.mpr ⟨n, hn, hid⟩
    obtain rfl := Option.some.inj (hi.symm.trans hj)
    exact ⟨d, hfore.found⟩
  · by_cases hcourse : ∃ i d, v.EdgeNear p i d
    · obtain ⟨_, _, _, -, -, hpicked, -⟩ := hv.pick_edge hr hnear hcourse
      exact nomatch hpicked.symm.trans h
    · exact nomatch (pick_of_none_near hnear hcourse).symm.trans h

theorem Reachable.picksForemost : v.PicksForemost p where
  placed i n hn := hv.exists_position (List.getElem?_eq_some_iff.mp hn).1
  drawn i e he := by
    obtain ⟨s, t, hs, ht⟩ := hv.exists_ends he
    exact ⟨_, curve?_eq hs ht⟩
  node h := hv.pick_node hr h
  edge h h' := hv.pick_edge hr h h'
  nothing h h' := pick_of_none_near h h'
  outside i n hn hfar hpick := hfar (hv.near_of_pick hr hn hpick)

end

end View

/-! ### A host and an interface -/

namespace View

/-- A view of a host, which can be hit from twice as far as an interface, and of an interface. -/
theorem exists_host_and_interface {h a : NodeEntry} (hh : h.kind = .host) (ha : a.kind = .interface)
    (hg : Graph.OfSnapshot (.ofParts [h.node, a.node] [])) :
    ∃ (v : View ℝ ℝ) (r : ℝ), v.Reachable ∧ v.graph = .ofParts [h.node, a.node] [] ∧
      v.layout.positions = [⟨r, 0⟩, ⟨-r, 0⟩] ∧ 14 ≤ r ∧ r ≤ 15 ∧
      v.sizes.hitRadiusOf h.node.kind = 20 ∧ v.sizes.hitRadiusOf a.node.kind = 10 := by
  let g : Graph := .ofParts [h.node, a.node] []
  let sizing : Sizing ℝ := { Sizing.standard with node := ⟨2, .world, 10, .world, 1.4, 1.5⟩ }
  obtain ⟨label, hlabel, -⟩ := Scalar.clamp?_real (by norm_num : (Scalar.ofNat 4 : ℝ) ≤ Scalar.ofNat 22)
    (Scalar.ofNat 12 * Scalar.ln (Scalar.ofNat 1 + Scalar.ofNat 1) / Scalar.ln2)
  obtain ⟨o, ho⟩ : ∃ o : Outcome (View ℝ ℝ), start? g .standard sizing 0 0 = some o :=
    ⟨_, Option.bind_eq_some_iff.mpr ⟨_, Option.bind_eq_some_iff.mpr ⟨label, hlabel, rfl⟩, rfl⟩⟩
  obtain ⟨sizes, hs, hv, -⟩ := start?_eq_some ho
  have hhit : o.value.sizes.hitRadius = 10 := by
    obtain ⟨_, -, hs⟩ := Option.bind_eq_some_iff.mp hs
    rw [hv, ← Option.some.inj hs]
  refine ⟨o.value, 10 * √2, .start hg ho, by rw [hv], ?_, ?_, ?_, ?_, ?_⟩
  · rw [hv, ← Layout.seed_two.1, ← Layout.seed_two.2]
    exact ((Layout.ofGraph g .standard : Layout ℝ ℝ).tune_places .standard g).1
  · have : 7 / 5 ≤ √2 := Real.le_sqrt_of_sq_le (by norm_num)
    linarith
  · have : √2 ≤ 3 / 2 := Real.sqrt_le_iff.mpr (by norm_num)
    linarith
  · have hsize : h.node.kind.size = (Scalar.ofNat 2 : ℝ) := by rw [NodeEntry.node, hh]; rfl
    rw [Sizes.hitRadiusOf, hhit, hsize, Scalar.ofNat_real]
    norm_num
  · have hsize : a.node.kind.size = (Scalar.ofNat 1 : ℝ) := by rw [NodeEntry.node, ha]; rfl
    rw [Sizes.hitRadiusOf, hhit, hsize, Scalar.ofNat_real]
    norm_num

/-- In every view that can come about, the pointer picks the first of the nearest that are near, on the
numbers that the program runs on and in exact arithmetic. -/
theorem picks_foremost :
    (∀ {S : Type} [Engine S] [Precision Float S] {v : View Float S}, v.Reachable →
      ∀ p, v.PicksForemost p) ∧
    ∀ {S : Type} [Engine S] [Precision ℝ S] {v : View ℝ S}, v.Reachable → ∀ p, v.PicksForemost p :=
  ⟨fun hv _ => hv.picksForemost ranked_binary, fun hv _ => hv.picksForemost ranked_real⟩

/-- A host is found past an interface that is nearer, but not near. -/
theorem picks_foremost_past_nearer : ∃ (v : View ℝ ℝ) (p far near : Point ℝ), v.Reachable ∧
    v.layout.positions = [far, near] ∧ near.dist (v.camera.toWorld p) < far.dist (v.camera.toWorld p) ∧
      (∃ i d, v.NodeNear p i d) ∧ v.pick p = .node ⟨"h"⟩ := by
  let h : NodeEntry := ⟨⟨"h"⟩, .host, {}⟩
  let a : NodeEntry := ⟨⟨"a"⟩, .interface, {}⟩
  obtain ⟨v, r, hv, hgraph, hplaces, hlow, hhigh, hhost, hinterface⟩ :=
    exists_host_and_interface (h := h) (a := a) rfl rfl ⟨⟨[h, a], []⟩, rfl⟩
  -- The pointer is twelve off the interface, which is hit within ten, and the host within twenty.
  let w : Point ℝ := ⟨-r + 12, 0⟩
  have hw : v.camera.toWorld (v.camera.toScreen w) = w := Camera.toWorld_toScreen hv.zoom_pos.ne' w
  have hnear : (⟨-r, 0⟩ : Point ℝ).dist w = 12 := by
    rw [Point.dist_comm]
    exact Point.dist_across ⟨-r, 0⟩ (by norm_num)
  have hfar : (⟨r, 0⟩ : Point ℝ).dist w = 2 * r - 12 := by
    have hx : (⟨r, 0⟩ : Point ℝ) = ⟨w.x + (2 * r - 12), w.y⟩ :=
      congrArg (Point.mk · 0) (by simp only [w]; ring)
    rw [hx, Point.dist_across w (by linarith)]
  have hhit : v.NodeNear (v.camera.toScreen w) 0 (2 * r - 12) :=
    ⟨h.node, ⟨r, 0⟩, by rw [hgraph]; rfl, by rw [hplaces]; rfl, by rw [hw, hfar],
      by rw [hhost]; linarith⟩
  have hmissed : ¬ ∃ d, v.NodeNear (v.camera.toScreen w) 1 d := by
    rintro ⟨d, n, q, hn, hq, rfl, hlt⟩
    rw [hgraph] at hn
    rw [hplaces] at hq
    obtain rfl : a.node = n := Option.some.inj hn
    obtain rfl : ⟨-r, 0⟩ = q := Option.some.inj hq
    rw [hw, hnear, hinterface] at hlt
    norm_num at hlt
  have hpicks := picks_foremost.2 hv (v.camera.toScreen w)
  obtain ⟨i, n, d, hn, -, hpick, -⟩ := hpicks.node ⟨0, _, hhit⟩
  refine ⟨v, v.camera.toScreen w, _, _, hv, hplaces, by rw [hw, hnear, hfar]; linarith,
    ⟨0, _, hhit⟩, ?_⟩
  have hmem : n ∈ [h.node, a.node] := List.mem_of_getElem? (hgraph ▸ hn)
  rcases List.mem_pair.mp hmem with rfl | rfl
  · exact hpick
  · exact absurd hpick (hpicks.outside 1 a.node (by rw [hgraph]; rfl) hmissed)

end View

end TunnelMap
