import TunnelMap.Layout.Repulsion
import TunnelMap.Proofs.Layout.Bounds
import TunnelMap.Proofs.View.Run

/-! In every view that can come about, the layout is one of the graph that there is. The two only
change together: another graph comes with a layout of its own, and whatever else is done to a
layout leaves it one of its graph. So no place that a change of the layout goes by is missing. -/

namespace TunnelMap

variable {R S : Type} [Scalar R] [Engine S] [Precision R S]

namespace View

theorem Yields.fits {v w : View R S} {op : Operation R S} (h : v.Yields op w)
    (hv : v.layout.Fits v.graph) : w.layout.Fits w.graph := by
  cases h with
  | drag alpha => exact (hv.pin ..).heated alpha
  | tick dt => exact hv.tick dt
  | retune t => exact hv.tune t v.graph
  | replace g =>
    exact ((Layout.fits_ofGraph g v.tuning).carryOver v.graph v.layout).tune v.tuning g
  | _ => exact hv

theorem Reachable.fits {v : View R S} (h : v.Reachable) : v.layout.Fits v.graph := by
  induction h with
  | @start g tuning _ _ _ _ _ hs =>
    obtain ⟨sizes, -, hv, -⟩ := start?_eq_some hs
    rw [hv]
    exact (Layout.fits_ofGraph g tuning).tune tuning g
  | perform _ _ ho ih => exact (perform?_yields ho).fits ih

theorem Reachable.exists_position {v : View R S} (h : v.Reachable) {i : NodeIdx}
    (hi : i < v.graph.nodes.length) : ∃ p, v.layout.positions[i]? = some p := by
  obtain ⟨p, -, hp, -⟩ := h.fits.staffed.exists_entry hi
  exact ⟨p, hp⟩

/-- The curve of an edge has both its ends. -/
theorem Reachable.exists_ends {v : View R S} (h : v.Reachable) {i : EdgeIdx} {e : Edge}
    (he : v.graph.edge? i = some e) : ∃ s t, v.layout.positions[e.source]? = some s ∧
      v.layout.positions[e.target]? = some t := by
  have hmem : e ∈ v.graph.edges := List.mem_of_getElem? he
  obtain ⟨s, hs⟩ := h.exists_position (h.sound.source_lt hmem)
  obtain ⟨t, ht⟩ := h.exists_position (h.sound.target_lt hmem)
  exact ⟨s, t, hs, ht⟩

end View

namespace Layout

omit [Scalar R] [Engine S] in
/-- The layout has one entry for each node and one link for each edge, with the ends of the edge.
The body that the handle of a node leads to is of the node, is where the node is, rounded, and is
anchored if the node is pinned. -/
structure Matches (l : Layout R S) (g : Graph) : Prop where
  positions : l.positions.length = g.nodes.length
  pinned : l.pinned.length = g.nodes.length
  charges : l.charges.length = g.nodes.length
  handles : l.handles.length = g.nodes.length
  links : l.links.length = g.edges.length
  ends : ∀ (i : EdgeIdx) k e, l.links[i]? = some k → g.edge? i = some e →
    k.source = e.source ∧ k.target = e.target
  bodies : l.bodies.length = g.nodes.length
  handles_nodup : l.handles.Nodup
  body : ∀ (i : NodeIdx) handle, l.handles[i]? = some handle → ∃ b p pinned,
    l.bodies.filter (·.handle = handle) = [b] ∧ b.node = i ∧
      l.positions[i]? = some p ∧ b.x = narrow p.x ∧ b.y = narrow p.y ∧
      l.pinned[i]? = some pinned ∧ b.anchored = pinned

/-- No look into a list that a change of the layout takes, or the change to another graph, misses
its entry. -/
structure Unbroken (l : Layout R S) (g : Graph) : Prop where
  tick : ∀ dt, l.tick? dt = some (l.tick dt)
  applyLinks : l.applyLinks? = some l.applyLinks
  writeBack : l.writeBack? = some l.writeBack
  pin : ∀ i p, l.pin? i p = some (l.pin i p)
  carryOver : ∀ next t, (ofGraph next t : Layout R S).carryOver? next g l =
    some ((ofGraph next t).carryOver next g l)

namespace Fits

variable {l : Layout R S} {g : Graph} (h : l.Fits g)

include h

omit [Scalar R] [Engine S] in
theorem toMatches : l.Matches g where
  positions := h.staffed.positions
  pinned := h.staffed.pinned
  charges := h.staffed.charges
  handles := h.staffed.handles_length
  links := by simpa using congrArg List.length h.links
  ends i k e hk he := by
    have hi := congrArg (·[i]?) h.links
    have hedge : g.edges[i]? = some e := he
    simpa [hk, hedge] using hi
  bodies := h.staffed.bodies_length
  handles_nodup := h.staffed.nodup
  body i handle hi := by
    obtain ⟨hlt, -⟩ := List.getElem?_eq_some_iff.mp hi
    rw [h.staffed.handles_length] at hlt
    obtain ⟨b, hb⟩ : ∃ b, l.bodies[i]? = some b :=
      ⟨_, List.getElem?_eq_getElem (h.staffed.bodies_length ▸ hlt)⟩
    have hmem : b ∈ l.bodies := List.mem_of_getElem? hb
    obtain rfl : b.node = i := h.staffed.node_eq hb
    obtain rfl : b.handle = handle := Option.some.inj ((h.staffed.handle_eq hb).symm.trans hi)
    obtain ⟨p, pinned, hp, hpinned⟩ := h.staffed.exists_entry hlt
    have hfollow : follow b p pinned = b := h.inStep b hmem p pinned hp hpinned
    refine ⟨b, p, pinned, h.staffed.filter_handle hmem, rfl, hp, ?_, ?_, hpinned, ?_⟩
    · rw [← hfollow]; rfl
    · rw [← hfollow]; rfl
    · rw [← hfollow]; rfl

theorem unbroken (hg : g.Sound) : l.Unbroken g where
  tick := h.staffed.tick?_eq (h.tied hg)
  applyLinks := h.staffed.applyLinks?_eq (h.tied hg)
  writeBack := h.staffed.writeBack?_eq
  pin := h.staffed.pin?_eq
  carryOver next t := (staffed_ofGraph next t).carryOver?_eq g l

end Fits

end Layout

/-- In every view that can come about, the layout matches the graph, and nothing that is done to
the layout breaks off. -/
theorem View.Reachable.layout_matches {v : View R S} (h : v.Reachable) :
    v.layout.Matches v.graph ∧ v.layout.Unbroken v.graph :=
  ⟨h.fits.toMatches, h.fits.unbroken h.sound⟩

/-- The layout of two nodes moves on and then goes over to one of three in another order. -/
theorem View.layout_matches_after_replace : ∃ v : View Float Float32,
    v.graph.nodes.map (·.id.text) = ["c", "b", "a"] ∧
      v.layout.links.map (fun k => (k.source, k.target)) = [(2, 1)] ∧
      v.layout.Matches v.graph ∧ v.layout.Unbroken v.graph := by
  let a : NodeEntry := ⟨⟨"a"⟩, .interface, {}⟩
  let b : NodeEntry := ⟨⟨"b"⟩, .interface, {}⟩
  let c : NodeEntry := ⟨⟨"c"⟩, .host, {}⟩
  let pair : Graph := .ofParts [a.node, b.node] [⟨⟨"t"⟩, 0, 1, .peer, {}⟩]
  let trio : Graph := .ofParts [c.node, b.node, a.node] [⟨⟨"t"⟩, 2, 1, .peer, {}⟩]
  have hpair : pair.OfSnapshot := ⟨⟨[a, b], [⟨⟨"t"⟩, a.id, b.id, none, {}⟩]⟩, rfl⟩
  have htrio : trio.OfSnapshot := ⟨⟨[c, b, a], [⟨⟨"t"⟩, a.id, b.id, none, {}⟩]⟩, rfl⟩
  have htick : (.tick 0.01 : Operation Float Float32).FromSnapshot := trivial
  have hreplace : (.replace trio : Operation Float Float32).FromSnapshot := htrio
  obtain ⟨o, ho⟩ : ∃ o : Outcome (View Float Float32),
      start? pair .standard .standard 800 600 = some o := ⟨_, rfl⟩
  have hzoom : o.value.sizes.k == o.value.camera.k := by
    obtain ⟨sizes, hs, hv, -⟩ := start?_eq_some ho
    have hone : ((1 : Float) == 1) = true := by decide +kernel
    rw [hv, Sizing.k_of_sizesAt? hs]
    exact hone
  obtain ⟨r, hr⟩ : ∃ r, o.value.perform? (.tick 0.01) = some r :=
    ⟨_, Option.map_eq_some_iff.mpr ⟨_, tick?_of_sizes hzoom 0.01, rfl⟩⟩
  have hreach : (r.value.replace trio).value.Reachable :=
    .perform (.perform (.start hpair ho) htick hr) hreplace rfl
  exact ⟨_, rfl, rfl, View.Reachable.layout_matches hreach⟩

end TunnelMap
