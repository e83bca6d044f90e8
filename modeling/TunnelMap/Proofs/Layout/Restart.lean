import TunnelMap.Proofs.Layout.Carry
import TunnelMap.Proofs.Layout.Orders

/-! What a layout has beyond its graph, its tuning and the places of its nodes. Handles are given in
the order of the nodes, links are those of the edges with the numbers of the tuning, and bodies are
where their nodes are. So two layouts of one graph that have been brought to one tuning, and that have
their nodes in the same places, differ in no more than the speed of their bodies, their heat, and the
numbers by which they cool. -/

namespace TunnelMap

variable {R S : Type}

/-- The body at rest where it is. -/
def Body.halt [Engine S] (b : Body S) : Body S :=
  let rest : S := Engine.rest
  { b with vx := rest, vy := rest, ax := rest, ay := rest }

namespace Layout

/-- The layout with its bodies at rest and full of heat. -/
def restart [Scalar R] [Engine S] (l : Layout R S) : Layout R S :=
  { l with bodies := l.bodies.map Body.halt, alpha := 1 }

theorem Staffed.restart [Scalar R] [Engine S] {l : Layout R S} {n : Nat} (h : l.Staffed n) :
    l.restart.Staffed n := by
  refine h.congr rfl rfl rfl rfl ?_ ?_
  · exact List.map_map.trans rfl
  · exact List.map_map.trans rfl

/-- The layout has the handles of a layout of the graph, and its links with the numbers of a tuning. -/
structure Laid [Scalar R] [Engine S] (l : Layout R S) (t : Tuning R) (g : Graph) : Prop where
  handles : l.handles = (List.range g.nodes.length).map (Engine.handle S)
  links : l.links = g.edges.map fun e => (linkOf t g e).tuned t e

section Laid

variable [Scalar R] [Engine S] {l l' : Layout R S} {t : Tuning R} {g : Graph}

/-- What leaves handles and links as they were. -/
theorem Laid.congr (h : l.Laid t g) (handles : l'.handles = l.handles) (links : l'.links = l.links) :
    l'.Laid t g :=
  ⟨handles.trans h.handles, links.trans h.links⟩

omit [Engine S] in
theorem tune_handles (l : Layout R S) (t : Tuning R) (g : Graph) :
    (l.tune t g).handles = l.handles := by
  obtain ⟨links, charges, h⟩ := l.tune_eq t g
  rw [h]

variable [Precision R S]

/-- Links of the edges that differ from those of a layout of the graph only in numbers have those of
the tuning afterwards. -/
theorem Fits.laid_tune (h : l.Fits g) (hh : l.handles = (List.range g.nodes.length).map (Engine.handle S))
    {f : Edge → Link R} (hl : l.links = g.edges.map f)
    (hf : ∀ e, (f e).tuned t e = (linkOf t g e).tuned t e) : (l.tune t g).Laid t g := by
  refine ⟨(l.tune_handles t g).trans hh, ?_⟩
  rw [h.tune_eq t]
  change List.zipWith (Link.tuned t) g.edges l.links = _
  rw [hl, List.zipWith_map_right, List.zipWith_self]
  exact List.map_congr_left fun e _ => hf e

theorem Laid.tune (h : l.Laid t g) (hf : l.Fits g) (t' : Tuning R) : (l.tune t' g).Laid t' g :=
  hf.laid_tune h.handles h.links fun _ => rfl

omit [Scalar R] [Engine S] in
theorem handles_pin (l : Layout R S) (i : NodeIdx) (p : Point R) :
    (l.pin i p).handles = l.handles := by
  unfold pin
  split_ifs <;> rfl

end Laid

section Precision

variable [Scalar R] [Engine S] [Precision R S] {l l' : Layout R S} {t : Tuning R} {g : Graph}

theorem laid_ofGraph_tune (g : Graph) (t : Tuning R) : ((ofGraph g t : Layout R S).tune t g).Laid t g :=
  (fits_ofGraph g t).laid_tune (handles_ofGraph g t) rfl fun _ => rfl

/-- A layout that takes over places is laid as it would be without them. -/
theorem laid_carryOver_tune (g previousGraph : Graph) (t : Tuning R) (previous : Layout R S) :
    (((ofGraph g t).carryOver g previousGraph previous).1.tune t g).Laid t g :=
  ((fits_ofGraph g t).carryOver previousGraph previous).laid_tune (handles_ofGraph g t) rfl
    fun _ => rfl

/-! ### Rest -/

omit [Scalar R] in
theorem halt_align (l : Layout R S) (b : Body S) : (l.align b).halt = l.align b.halt := by
  unfold align
  dsimp only [Body.halt]
  split <;> rfl

/-- Bodies start at rest, and neither places nor a tuning set them going. -/
theorem restart_carryOver_tune (g previousGraph : Graph) (t : Tuning R) (previous : Layout R S) :
    let l := ((ofGraph g t).carryOver g previousGraph previous).1.tune t g
    l.restart = l := by
  obtain ⟨links, charges, htune⟩ :=
    ((ofGraph g t).carryOver g previousGraph previous).1.tune_eq t g
  have hbodies : (ofGraph g t : Layout R S).bodies.map Body.halt = (ofGraph g t).bodies := by
    rw [bodies_ofGraph, List.map_map]
    rfl
  have hrest : ((ofGraph g t).carryOver g previousGraph previous).1.bodies.map Body.halt =
      ((ofGraph g t).carryOver g previousGraph previous).1.bodies := by
    dsimp only [carryOver, writeBack, inherit]
    rw [List.map_map, ← hbodies, List.map_map, List.map_map]
    -- A body at rest is brought to rest again without a change, by definition.
    exact List.map_congr_left fun b _ => halt_align _ b.halt
  intro l
  change { l with bodies := l.bodies.map Body.halt, alpha := 1 } = l
  simp only [l, htune, hrest]

/-! ### The same places -/

omit [Scalar R] [Engine S] in
/-- A layout that takes over from another of the same graph has all places and pins of it. -/
theorem carryOver_same (hg : g.Sound) (h : l.Staffed g.nodes.length)
    (h' : l'.Staffed g.nodes.length) :
    (l.carryOver g g l').1.positions = l'.positions ∧ (l.carryOver g g l').1.pinned = l'.pinned := by
  have hc : (l.carryOver g g l').1.Staffed g.nodes.length := (h.inherit (List.length_map ..)).writeBack
  have entry (i : NodeIdx) (hi : i < g.nodes.length) :
      (l.carryOver g g l').1.positions[i]? = l'.positions[i]? ∧
        (l.carryOver g g l').1.pinned[i]? = l'.pinned[i]? := by
    have hn : g.node? i = some g.nodes[i] := List.getElem?_eq_getElem hi
    have hidx : g.nodeIdx? g.nodes[i].id = some i := hg.nodeIdx?_eq_some.mpr ⟨_, hn, rfl⟩
    obtain ⟨p, pinned, hp, hb⟩ := h'.exists_entry hi
    rw [hp, hb]
    exact carryOver_of_known h hn hidx hp hb
  constructor
  · refine List.ext_getElem?' fun i hi => (entry i ?_).1
    rwa [hc.positions, h'.positions, Nat.max_self] at hi
  · refine List.ext_getElem?' fun i hi => (entry i ?_).2
    rwa [hc.pinned, h'.pinned, Nat.max_self] at hi

omit [Scalar R] in
/-- Bodies that are known alike and follow nodes in the same places differ in speed at most. -/
theorem Fits.halted_eq (h : l.Fits g) (h' : l'.Fits g) (handles : l'.handles = l.handles)
    (positions : l'.positions = l.positions) (pinned : l'.pinned = l.pinned) :
    l'.bodies.map Body.halt = l.bodies.map Body.halt := by
  refine List.ext_getElem?' fun i hi => ?_
  rw [List.length_map, List.length_map, h.staffed.bodies_length, h'.staffed.bodies_length,
    Nat.max_self] at hi
  obtain ⟨b, hb⟩ : ∃ b, l.bodies[i]? = some b :=
    ⟨_, List.getElem?_eq_getElem (h.staffed.bodies_length ▸ hi)⟩
  obtain ⟨b', hb'⟩ : ∃ b', l'.bodies[i]? = some b' :=
    ⟨_, List.getElem?_eq_getElem (h'.staffed.bodies_length ▸ hi)⟩
  obtain ⟨p, a, hp, ha⟩ := h.staffed.exists_entry hi
  have hnode : b.node = i := h.staffed.node_eq hb
  have hnode' : b'.node = i := h'.staffed.node_eq hb'
  have hhandle : b'.handle = b.handle :=
    Option.some.inj ((h'.staffed.handle_eq hb').symm.trans (handles ▸ h.staffed.handle_eq hb))
  have hfollow : follow b p a = b :=
    h.inStep b (List.mem_of_getElem? hb) p a (hnode ▸ hp) (hnode ▸ ha)
  have hfollow' : follow b' p a = b' :=
    h'.inStep b' (List.mem_of_getElem? hb') p a (hnode' ▸ positions ▸ hp) (hnode' ▸ pinned ▸ ha)
  rw [List.getElem?_map, List.getElem?_map, hb, hb', ← hfollow, ← hfollow']
  simp only [Option.map_some, follow, Body.halt, hnode, hnode', hhandle]

/-- Two layouts of one graph, brought to one tuning, with their nodes in the same places, come to the
same when they start again, but for the numbers by which they cool. -/
theorem Laid.restart_eq (h : l.Laid t g) (h' : l'.Laid t g) (hf : l.Fits g) (hf' : l'.Fits g)
    (ht : l.Tuned t g) (ht' : l'.Tuned t g) (positions : l'.positions = l.positions)
    (pinned : l'.pinned = l.pinned) :
    l'.restart = { l.restart with
      alphaDecay := l'.alphaDecay, alphaMin := l'.alphaMin, damping := l'.damping } := by
  have hhandles : l'.handles = l.handles := h'.handles.trans h.handles.symm
  have hlinks : l'.links = l.links := h'.links.trans h.links.symm
  have hcharges : l'.charges = l.charges := ht'.charges.trans ht.charges.symm
  have hbodies := hf.halted_eq hf' hhandles positions pinned
  simp only [restart, hbodies, hhandles, hlinks, hcharges, positions, pinned]

end Precision

end Layout

end TunnelMap
