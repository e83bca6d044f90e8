import Mathlib.Data.List.Nodup
import TunnelMap.Proofs.Layout.Frame

/-! What ties a layout to its graph. Each node has one entry in every list of the layout and one
body, which is known by the handle that the layout has for the node; each edge has a link with
the same ends; and the bodies are where their nodes are, anchored if these are pinned. A layout
that is laid out for a graph fits it so, and each change of a layout keeps it so. A step sends
the nodes after the bodies, draws at the links and then sends the bodies after the nodes, so in
its midst only the first part holds. -/

namespace TunnelMap

/-- A point as bodies have it. -/
def Point.rounded {R : Type} (S : Type) [Precision R S] (p : Point R) : Point R :=
  ⟨widen (narrow p.x : S), widen (narrow p.y : S)⟩

/-- A change of one entry that a reading does not see. -/
theorem map_modify_of_eq {α β : Type} {f : α → β} {u : α → α} (h : ∀ x, f (u x) = f x)
    (xs : List α) (i : ℕ) : (xs.modify i u).map f = xs.map f := by
  refine List.ext_getElem? fun j => ?_
  rw [List.getElem?_map, List.getElem?_map, List.getElem?_modify]
  cases xs[j]? with
  | none => rfl
  | some x => split_ifs <;> simp [h]

/-- Of entries with different keys, a key finds one. -/
theorem filter_key_eq {α κ : Type} [DecidableEq κ] {key : α → κ} {xs : List α}
    (hn : (xs.map key).Nodup) {x : α} (hx : x ∈ xs) : xs.filter (key · = key x) = [x] := by
  induction xs with
  | nil => simp at hx
  | cons y ys ih =>
    rw [List.map_cons, List.nodup_cons] at hn
    rcases List.mem_cons.mp hx with rfl | hx
    · have hrest : ys.filter (key · = key x) = [] := by
        rw [List.filter_eq_nil_iff]
        intro z hz heq
        exact hn.1 (List.mem_map.mpr ⟨z, hz, of_decide_eq_true heq⟩)
      rw [List.filter_cons_of_pos (by simp), hrest]
    · have hne : key y ≠ key x := fun heq => hn.1 (heq ▸ List.mem_map_of_mem hx)
      rw [List.filter_cons_of_neg (by simpa using hne), ih hn.2 hx]

namespace Layout

variable {R S : Type}

/-- Each of `n` nodes has one entry in every list, and one body, known by its handle. -/
structure Staffed (l : Layout R S) (n : Nat) : Prop where
  positions : l.positions.length = n
  pinned : l.pinned.length = n
  charges : l.charges.length = n
  handles : l.bodies.map (·.handle) = l.handles
  nodup : l.handles.Nodup
  nodes : l.bodies.map (·.node) = List.range n

namespace Staffed

variable {l : Layout R S} {n : Nat} (h : l.Staffed n)

include h

theorem bodies_length : l.bodies.length = n := by
  simpa using congrArg List.length h.nodes

theorem handles_length : l.handles.length = n := by
  rw [← h.handles, List.length_map, h.bodies_length]

/-- The bodies stand in the order of their nodes. -/
theorem node_eq {i : Nat} {b : Body S} (hb : l.bodies[i]? = some b) : b.node = i := by
  have hn : (l.bodies.map (·.node))[i]? = some b.node := by rw [List.getElem?_map, hb]; rfl
  rw [h.nodes, List.getElem?_eq_some_iff] at hn
  obtain ⟨hlt, hi⟩ := hn
  simpa using hi.symm

theorem handle_eq {i : Nat} {b : Body S} (hb : l.bodies[i]? = some b) :
    l.handles[i]? = some b.handle := by
  rw [← h.handles, List.getElem?_map, hb]
  rfl

theorem getElem?_node {b : Body S} (hb : b ∈ l.bodies) : l.bodies[b.node]? = some b := by
  obtain ⟨i, hi⟩ := List.getElem?_of_mem hb
  rwa [h.node_eq hi]

theorem node_lt {b : Body S} (hb : b ∈ l.bodies) : b.node < n := by
  rw [← h.bodies_length]
  exact (List.getElem?_eq_some_iff.mp (h.getElem?_node hb)).1

theorem nodes_nodup : (l.bodies.map (·.node)).Nodup := h.nodes ▸ List.nodup_range

/-- The handle of a body leads to it alone. -/
theorem filter_handle {b : Body S} (hb : b ∈ l.bodies) :
    l.bodies.filter (·.handle = b.handle) = [b] := by
  have hn : (l.bodies.map (·.handle)).Nodup := h.handles ▸ h.nodup
  exact filter_key_eq hn hb

/-- A body is known by the handle of its node and by no other. -/
theorem handle_iff {b : Body S} (hb : b ∈ l.bodies) {i : NodeIdx} :
    l.handles[i]? = some b.handle ↔ b.node = i := by
  have hnode := h.handle_eq (h.getElem?_node hb)
  constructor
  · intro hi
    have hlt : b.node < l.handles.length := h.handles_length ▸ h.node_lt hb
    exact (List.getElem?_inj hlt h.nodup).mp (hnode.trans hi.symm)
  · rintro rfl
    exact hnode

end Staffed

variable [Precision R S]

/-- Each body is where its node is, and anchored if the node is pinned. -/
def InStep (l : Layout R S) : Prop :=
  ∀ b ∈ l.bodies, ∀ p pinned, l.positions[b.node]? = some p → l.pinned[b.node]? = some pinned →
    follow b p pinned = b

/-! ### Bodies -/

theorem align_handle (l : Layout R S) (b : Body S) : (l.align b).handle = b.handle := by
  unfold align
  split <;> rfl

theorem align_node (l : Layout R S) (b : Body S) : (l.align b).node = b.node := by
  unfold align
  split <;> rfl

theorem align_eq {l : Layout R S} {b : Body S} {p : Point R} {pinned : Bool}
    (hp : l.positions[b.node]? = some p) (hb : l.pinned[b.node]? = some pinned) :
    l.align b = follow b p pinned := by
  simp only [align, hp, hb]

theorem follow_follow (b : Body S) (p : Point R) (pinned : Bool) :
    follow (follow b p pinned) p pinned = follow b p pinned := rfl

omit [Precision R S] in
/-- What leaves the lists as long as they were and the bodies known as they were. -/
theorem Staffed.congr {l l' : Layout R S} {n : Nat} (h : l.Staffed n)
    (positions : l'.positions.length = l.positions.length)
    (pinned : l'.pinned.length = l.pinned.length)
    (charges : l'.charges.length = l.charges.length) (handles : l'.handles = l.handles)
    (bodies : l'.bodies.map (·.handle) = l.bodies.map (·.handle))
    (nodes : l'.bodies.map (·.node) = l.bodies.map (·.node)) : l'.Staffed n where
  positions := positions.trans h.positions
  pinned := pinned.trans h.pinned
  charges := charges.trans h.charges
  handles := by rw [bodies, h.handles, handles]
  nodup := handles ▸ h.nodup
  nodes := nodes.trans h.nodes

theorem Staffed.writeBack {l : Layout R S} {n : Nat} (h : l.Staffed n) : l.writeBack.Staffed n := by
  refine h.congr rfl rfl rfl rfl ?_ ?_
  · simp [Layout.writeBack, align_handle]
  · simp [Layout.writeBack, align_node]

/-- Writing back brings the bodies in step, wherever they were. -/
theorem inStep_writeBack (l : Layout R S) : l.writeBack.InStep := by
  intro b hb p pinned hp hpinned
  obtain ⟨a, -, rfl⟩ := List.mem_map.mp hb
  rw [align_node] at hp hpinned
  have ha : l.align a = follow a p pinned := align_eq hp hpinned
  rw [ha, follow_follow]

/-! ### A pin -/

/-- To put some bodies elsewhere keeps what does not depend on where a body is. -/
theorem map_follow {α : Type} {f : Body S → α} {p : Point R} (hf : ∀ b, f (follow b p true) = f b)
    (chosen : Body S → Prop) [DecidablePred chosen] (bodies : List (Body S)) :
    (bodies.map fun b => if chosen b then follow b p true else b).map f = bodies.map f := by
  rw [List.map_map]
  refine List.map_congr_left fun b _ => ?_
  simp only [Function.comp_apply]
  split_ifs
  · exact hf b
  · rfl

theorem Staffed.pin {l : Layout R S} {n : Nat} (h : l.Staffed n) (i : NodeIdx) (p : Point R) :
    (l.pin i p).Staffed n := by
  unfold Layout.pin
  split_ifs
  · exact h.congr (List.length_set ..) (List.length_set ..) rfl rfl
      (map_follow (fun _ => rfl) _ _) (map_follow (fun _ => rfl) _ _)
  · exact h

theorem pin_getElem?_self {l : Layout R S} {n : Nat} (h : l.Staffed n) {i : NodeIdx} (hi : i < n)
    (p : Point R) :
    (l.pin i p).pinned[i]? = some true ∧ (l.pin i p).positions[i]? = some p := by
  have hp : i < l.positions.length := h.positions ▸ hi
  rw [pin, if_pos hp]
  exact ⟨List.getElem?_set_self (h.pinned ▸ hi), List.getElem?_set_self hp⟩

theorem pin_getElem?_ne (l : Layout R S) {i j : NodeIdx} (hij : i ≠ j) (p : Point R) :
    (l.pin i p).pinned[j]? = l.pinned[j]? ∧ (l.pin i p).positions[j]? = l.positions[j]? := by
  unfold pin
  split_ifs
  · exact ⟨List.getElem?_set_ne hij, List.getElem?_set_ne hij⟩
  · exact ⟨rfl, rfl⟩

theorem InStep.pin {l : Layout R S} {n : Nat} (hs : l.InStep) (h : l.Staffed n) (i : NodeIdx)
    (p : Point R) : (l.pin i p).InStep := by
  by_cases hlt : i < l.positions.length
  · intro b hb q pinned hq hpinned
    rw [Layout.pin, if_pos hlt] at hb hq hpinned
    obtain ⟨a, ha, rfl⟩ := List.mem_map.mp hb
    -- The body that the handle of the node leads to is put in its place, and no other.
    simp only [h.handle_iff ha] at hq hpinned ⊢
    split_ifs at hq hpinned ⊢ with hi
    · have hnode : (follow a p true).node = i := hi
      rw [hnode, List.getElem?_set_self hlt] at hq
      rw [hnode, List.getElem?_set_self (h.pinned ▸ h.positions ▸ hlt)] at hpinned
      rw [← Option.some.inj hq, ← Option.some.inj hpinned, follow_follow]
    · rw [List.getElem?_set_ne (Ne.symm hi)] at hq hpinned
      exact hs a ha q pinned hq hpinned
  · rw [Layout.pin, if_neg hlt]
    exact hs

theorem links_pin (l : Layout R S) (i : NodeIdx) (p : Point R) : (l.pin i p).links = l.links := by
  unfold pin
  split_ifs <;> rfl

theorem charges_pin (l : Layout R S) (i : NodeIdx) (p : Point R) :
    (l.pin i p).charges = l.charges := by
  unfold pin
  split_ifs <;> rfl

/-! ### A step -/

section Fetch

variable {bodies : List (Body S)}

theorem length_foldl_fetch (bodies : List (Body S)) (ps : List (Point R)) :
    (bodies.foldl fetch ps).length = ps.length := by
  induction bodies generalizing ps with
  | nil => rfl
  | cons b bodies ih => rw [List.foldl_cons, ih, fetch, List.length_set]

theorem foldl_fetch_of_notMem {i : NodeIdx} (hi : i ∉ bodies.map (·.node)) (ps : List (Point R)) :
    (bodies.foldl fetch ps)[i]? = ps[i]? := by
  induction bodies generalizing ps with
  | nil => rfl
  | cons b bodies ih =>
    rw [List.map_cons, List.mem_cons, not_or] at hi
    rw [List.foldl_cons, ih hi.2, fetch, List.getElem?_set_ne (Ne.symm hi.1)]

/-- Of bodies with different nodes, each fetches its own. -/
theorem foldl_fetch_of_mem (hn : (bodies.map (·.node)).Nodup) {b : Body S} (hb : b ∈ bodies)
    {ps : List (Point R)} (hlt : b.node < ps.length) :
    (bodies.foldl fetch ps)[b.node]? = some (spot b) := by
  induction bodies generalizing ps with
  | nil => simp at hb
  | cons a bodies ih =>
    rw [List.map_cons, List.nodup_cons] at hn
    rw [List.foldl_cons]
    rcases List.mem_cons.mp hb with rfl | hb
    · rw [foldl_fetch_of_notMem hn.1, fetch, List.getElem?_set_self hlt]
    · exact ih hn.2 hb (by rwa [fetch, List.length_set])

end Fetch

section Links

variable [Scalar R] (alpha : R) (pinned : List Bool)

omit [Precision R S] in
theorem length_drawLink (ps : List (Point R)) (k : Link R) :
    (drawLink alpha pinned ps k).length = ps.length := by
  unfold drawLink
  split
  · split
    · dsimp only
      split_ifs <;> simp
    · rfl
  · rfl

/-- A link does not move a pinned end. -/
theorem drawLink_pinned {i : NodeIdx} (hi : pinned[i]? = some true) (ps : List (Point R))
    (k : Link R) : (drawLink alpha pinned ps k)[i]? = ps[i]? := by
  have fixed (j : NodeIdx) (hj : (!(pinned[j]?.getD false)) = true) : j ≠ i := by
    rintro rfl
    simp [hi] at hj
  unfold drawLink
  split
  · split
    · dsimp only
      split_ifs with hs ht ht
      · rw [List.getElem?_modify_ne _ _ (fixed _ hs), List.getElem?_modify_ne _ _ (fixed _ ht)]
      · rw [List.getElem?_modify_ne _ _ (fixed _ hs)]
      · rw [List.getElem?_modify_ne _ _ (fixed _ ht)]
      · rfl
    · rfl
  · rfl

theorem length_foldl_drawLink (ks : List (Link R)) (ps : List (Point R)) :
    (ks.foldl (drawLink alpha pinned) ps).length = ps.length := by
  induction ks generalizing ps with
  | nil => rfl
  | cons k ks ih => rw [List.foldl_cons, ih, length_drawLink]

theorem foldl_drawLink_pinned {i : NodeIdx} (hi : pinned[i]? = some true) (ks : List (Link R))
    (ps : List (Point R)) : (ks.foldl (drawLink alpha pinned) ps)[i]? = ps[i]? := by
  induction ks generalizing ps with
  | nil => rfl
  | cons k ks ih => rw [List.foldl_cons, ih, drawLink_pinned alpha pinned hi]

end Links

variable [Scalar R] [Engine S]

theorem Staffed.sweep {l : Layout R S} {n : Nat} (h : l.Staffed n) (dt : S) :
    (l.sweep dt).Staffed n :=
  h.congr (length_foldl_fetch _ _) rfl rfl rfl (Engine.laws.handles _ _) (Engine.laws.nodes _ _)

omit [Precision R S] [Engine S] in
theorem Staffed.applyLinks {l : Layout R S} {n : Nat} (h : l.Staffed n) : l.applyLinks.Staffed n :=
  h.congr (length_foldl_drawLink ..) rfl rfl rfl rfl rfl

/-- The body of a pinned node comes out of a sweep where it was, so the node is put where its body
was. -/
theorem sweep_pinned {l : Layout R S} {n : Nat} (h : l.Staffed n) (hs : l.InStep) (dt : S)
    {i : NodeIdx} {p : Point R} (hi : l.pinned[i]? = some true) (hp : l.positions[i]? = some p) :
    (l.sweep dt).positions[i]? = some (p.rounded S) := by
  obtain ⟨hlt, -⟩ := List.getElem?_eq_some_iff.mp hp
  have hlen : i < l.bodies.length := by rwa [h.bodies_length, ← h.positions]
  obtain ⟨b, hb⟩ : ∃ b, l.bodies[i]? = some b := ⟨_, List.getElem?_eq_getElem hlen⟩
  have hmem : b ∈ l.bodies := List.mem_of_getElem? hb
  obtain rfl : b.node = i := h.node_eq hb
  have hfollow : follow b p true = b := hs b hmem p true hp hi
  have hanchored : b.anchored = true := by rw [← hfollow]; rfl
  have hspot : spot b = p.rounded S := by rw [← hfollow]; rfl
  have hnodup : ((l.sweep dt).bodies.map (·.node)).Nodup := (h.sweep dt).nodes_nodup
  rw [← hspot]
  exact foldl_fetch_of_mem hnodup (Engine.laws.anchored _ hmem hanchored) hlt

/-- A step rounds the place of a pinned node, if it does anything. -/
theorem tick_pinned {l : Layout R S} {n : Nat} (h : l.Staffed n) (hs : l.InStep) (dt : S)
    {i : NodeIdx} {p : Point R} (hi : l.pinned[i]? = some true) (hp : l.positions[i]? = some p) :
    (l.tick dt).pinned[i]? = some true ∧
      ((l.tick dt).positions[i]? = some p ∨ (l.tick dt).positions[i]? = some (p.rounded S)) := by
  unfold tick
  split_ifs
  · refine ⟨hi, .inr ?_⟩
    calc (l.sweep dt).applyLinks.writeBack.cool.positions[i]?
      _ = (l.sweep dt).positions[i]? :=
        foldl_drawLink_pinned (l.sweep dt).alpha (l.sweep dt).pinned hi _ _
      _ = some (p.rounded S) := sweep_pinned h hs dt hi hp
  · exact ⟨hi, .inl hp⟩

/-! ### Fitting a graph -/

/-- The layout is one of the graph, and its bodies are in step. -/
structure Fits (l : Layout R S) (g : Graph) : Prop where
  staffed : l.Staffed g.nodes.length
  links : l.links.map (fun k => (k.source, k.target)) = g.edges.map fun e => (e.source, e.target)
  inStep : l.InStep

/-- The body of the `i`-th node, as it is added. -/
def bodyOf (p : Point R) (i : Nat) : Body S :=
  let rest : S := Engine.rest
  ⟨Engine.handle S i, i, narrow p.x, narrow p.y, rest, rest, rest, rest, false⟩

omit [Scalar R] in
/-- Bodies are numbered on from those that there are. -/
theorem foldl_enlist (ps : List (Point R)) (hs : List Handle) (bs : List (Body S)) :
    (ps.zipIdx bs.length).foldl (fun (handles, bodies) (p, i) =>
        let (handle, bodies) := Body.add bodies i (narrow p.x) (narrow p.y)
        (handles ++ [handle], bodies)) (hs, bs) =
      (hs ++ (List.range' bs.length ps.length).map (Engine.handle S),
        bs ++ (ps.zipIdx bs.length).map fun (p, i) => bodyOf p i) := by
  induction ps generalizing hs bs with
  | nil => simp
  | cons p ps ih =>
    have hrest := ih (hs ++ [Engine.handle S bs.length]) (bs ++ [bodyOf p bs.length])
    rw [List.length_append, List.length_singleton] at hrest
    simpa [Body.add, bodyOf, List.range'_succ] using hrest

omit [Scalar R] in
theorem enlist_eq (ps : List (Point R)) :
    (enlist ps : List Handle × List (Body S)) =
      ((List.range ps.length).map (Engine.handle S), ps.zipIdx.map fun (p, i) => bodyOf p i) := by
  rw [List.range_eq_range']
  exact foldl_enlist ps [] []

theorem positions_ofGraph (g : Graph) (t : Tuning R) :
    (ofGraph g t : Layout R S).positions = (List.range g.nodes.length).map (seed g.nodes.length) := rfl

theorem pinned_ofGraph (g : Graph) (t : Tuning R) :
    (ofGraph g t : Layout R S).pinned = List.replicate g.nodes.length false := rfl

/-- A node starts at its place on the ring, free. -/
theorem ofGraph_getElem? {g : Graph} {i : NodeIdx} (hi : i < g.nodes.length) (t : Tuning R) :
    (ofGraph g t : Layout R S).positions[i]? = some (seed g.nodes.length i) ∧
      (ofGraph g t : Layout R S).pinned[i]? = some false := by
  rw [positions_ofGraph, pinned_ofGraph, List.getElem?_map, List.getElem?_range hi,
    List.getElem?_replicate, if_pos hi]
  exact ⟨rfl, rfl⟩

theorem handles_ofGraph (g : Graph) (t : Tuning R) :
    (ofGraph g t : Layout R S).handles = (List.range g.nodes.length).map (Engine.handle S) := by
  simp [ofGraph, enlist_eq]

theorem bodies_ofGraph (g : Graph) (t : Tuning R) : (ofGraph g t : Layout R S).bodies =
    (List.range g.nodes.length).map fun i => bodyOf (seed g.nodes.length i : Point R) i := by
  simp only [ofGraph, enlist_eq]
  refine List.ext_getElem? fun i => ?_
  by_cases hi : i < g.nodes.length
  · simp [hi]
  · simp [hi]

theorem staffed_ofGraph (g : Graph) (t : Tuning R) :
    (ofGraph g t : Layout R S).Staffed g.nodes.length where
  positions := by simp [positions_ofGraph]
  pinned := by simp [pinned_ofGraph]
  charges := List.length_replicate
  handles := by simp [bodies_ofGraph, handles_ofGraph, bodyOf, Function.comp_def]
  nodup := by
    rw [handles_ofGraph]
    exact List.Nodup.map (fun _ _ h => (Engine.laws (S := S)).handle_inj h) List.nodup_range
  nodes := by simp [bodies_ofGraph, bodyOf, Function.comp_def]

theorem fits_ofGraph (g : Graph) (t : Tuning R) : (ofGraph g t : Layout R S).Fits g := by
  refine ⟨staffed_ofGraph g t, by simp [ofGraph, linkOf], fun b hb p pinned hp hpinned => ?_⟩
  rw [bodies_ofGraph] at hb
  obtain ⟨i, hi, rfl⟩ := List.mem_map.mp hb
  have hlt : i < g.nodes.length := List.mem_range.mp hi
  obtain ⟨hseed, hfree⟩ := ofGraph_getElem? (S := S) hlt t
  obtain rfl : seed g.nodes.length i = p := Option.some.inj (hseed.symm.trans hp)
  obtain rfl : false = pinned := Option.some.inj (hfree.symm.trans hpinned)
  rfl

omit [Scalar R] [Engine S] in
theorem Fits.pin {l : Layout R S} {g : Graph} (h : l.Fits g) (i : NodeIdx) (p : Point R) :
    (l.pin i p).Fits g :=
  ⟨h.staffed.pin i p, (l.links_pin i p).symm ▸ h.links, h.inStep.pin h.staffed i p⟩

omit [Scalar R] [Engine S] in
theorem Fits.heated {l : Layout R S} {g : Graph} (h : l.Fits g) (alpha : R) :
    ({ l with alpha } : Layout R S).Fits g :=
  ⟨h.staffed.congr rfl rfl rfl rfl rfl rfl, h.links, h.inStep⟩

theorem Fits.tick {l : Layout R S} {g : Graph} (h : l.Fits g) (dt : S) : (l.tick dt).Fits g := by
  unfold Layout.tick
  split_ifs
  · exact ⟨(h.staffed.sweep dt).applyLinks.writeBack.congr rfl rfl rfl rfl rfl rfl, h.links,
      inStep_writeBack (l.sweep dt).applyLinks⟩
  · exact h

omit [Engine S] in
theorem Fits.obey {l : Layout R S} {g : Graph} (h : l.Fits g) (o : Order R) : (l.obey o).Fits g := by
  cases o with
  | setLink i params =>
    have hlinks := map_modify_of_eq (f := fun k : Link R => (k.source, k.target))
      (u := fun k => { k with params }) (fun _ => rfl) l.links i
    exact ⟨h.staffed.congr rfl rfl rfl rfl rfl rfl, hlinks.trans h.links, h.inStep⟩
  | setCharge i c => exact ⟨h.staffed.congr rfl rfl (List.length_set ..) rfl rfl rfl, h.links, h.inStep⟩
  | reheat => exact h.heated 1

omit [Engine S] in
theorem Fits.tune {l : Layout R S} {g : Graph} (h : l.Fits g) (t : Tuning R) (g' : Graph) :
    (l.tune t g').Fits g := by
  unfold Layout.tune
  induction t.orders g' generalizing l with
  | nil => exact h
  | cons o os ih => exact ih (h.obey o)

end Layout

end TunnelMap
