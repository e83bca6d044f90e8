import TunnelMap.Proofs.Graph.Incidence
import TunnelMap.Proofs.Hover.Turn
import TunnelMap.Proofs.Outcome
import TunnelMap.View.Operation

/-! Runs of a view: operations in any order from a start on. What one operation does is said
here once, field by field, for all that is proved of runs. An operation that comes upon sizes
out of order ends its run. -/

namespace TunnelMap

variable {R S : Type} [Scalar R] [Engine S] [Precision R S]

namespace Operation

omit [Scalar R] [Engine S] [Precision R S] in
/-- A graph that the operation brings in comes from a snapshot. -/
def FromSnapshot : Operation R S → Prop
  | .replace g => g.OfSnapshot
  | _ => True

end Operation

namespace Outcome

/-- Goes on with an operation; what it tells and says comes after all before. -/
def perform? (o : Outcome (View R S)) (op : Operation R S) : Option (Outcome (View R S)) :=
  (o.value.perform? op).map fun next =>
    ⟨next.value, o.events ++ next.events, o.notices ++ next.notices⟩

/-- Goes on with operations in turn. -/
def run? (o : Outcome (View R S)) (ops : List (Operation R S)) : Option (Outcome (View R S)) :=
  ops.foldlM perform? o

theorem perform?_eq_some {o r : Outcome (View R S)} {op : Operation R S} :
    o.perform? op = some r ↔ ∃ next, o.value.perform? op = some next ∧
      r = ⟨next.value, o.events ++ next.events, o.notices ++ next.notices⟩ :=
  goOn?_eq_some

@[simp] theorem run?_nil (o : Outcome (View R S)) : o.run? [] = some o := rfl

theorem run?_cons {o r : Outcome (View R S)} {op : Operation R S} {ops : List (Operation R S)} :
    o.run? (op :: ops) = some r ↔ ∃ m, o.perform? op = some m ∧ m.run? ops = some r :=
  goAll?_cons

theorem run?_concat {o r : Outcome (View R S)} {op : Operation R S} {ops : List (Operation R S)} :
    o.run? (ops ++ [op]) = some r ↔ ∃ m, o.run? ops = some m ∧ m.perform? op = some r :=
  goAll?_concat

theorem run?_induct {P : Outcome (View R S) → Prop} {ops : List (Operation R S)}
    (step : ∀ o op r, P o → op ∈ ops → o.perform? op = some r → P r) {o r : Outcome (View R S)}
    (ho : P o) (h : o.run? ops = some r) : P r :=
  goAll?_induct step ho h

theorem run?_keeps {P : View R S → Prop} {ops : List (Operation R S)}
    (step : ∀ (v : View R S) (op : Operation R S) (next : Outcome (View R S)), P v → op ∈ ops →
      v.perform? op = some next → P next.value) {o r : Outcome (View R S)}
    (ho : P o.value) (h : o.run? ops = some r) : P r.value :=
  goAll?_keeps step ho h

end Outcome

theorem Sizing.k_of_sizesAt? {s : Sizing R} {k : R} {sizes : Sizes R}
    (h : s.sizesAt? k = some sizes) : sizes.k = k := by
  simp only [sizesAt?, Option.bind_eq_bind, Option.bind_eq_some_iff, Option.pure_def,
    Option.some.injEq] at h
  obtain ⟨_, -, _, -, _, -, rfl⟩ := h
  rfl

namespace View

/-- The views that come about from graphs of snapshots. -/
inductive Reachable : View R S → Prop
  | start {g : Graph} {tuning : Tuning R} {sizing : Sizing R} {width height : R}
      {o : Outcome (View R S)} : g.OfSnapshot → start? g tuning sizing width height = some o →
      Reachable o.value
  | perform {v : View R S} {op : Operation R S} {o : Outcome (View R S)} : Reachable v →
      op.FromSnapshot → v.perform? op = some o → Reachable o.value

/-! ### Single operations -/

theorem start?_eq_some {g : Graph} {tuning : Tuning R} {sizing : Sizing R} {width height : R}
    {o : Outcome (View R S)} (h : start? g tuning sizing width height = some o) :
    ∃ sizes, sizing.sizesAt? 1 = some sizes ∧
      o.value =
      { graph := g
        layout := (Layout.ofGraph g tuning).tune tuning g
        tuning
        hover := .idle
        sizing
        sizes
        camera := ⟨width / 2, height / 2, 1⟩
        drag := .idle
        pan := ⟨false, .origin, .origin⟩
        moved := false
        width
        height
        flowTime := 0 } ∧ o.events = [] := by
  simp only [start?, Option.bind_eq_bind, Option.bind_eq_some_iff, Option.pure_def,
    Option.some.injEq] at h
  obtain ⟨sizes, hs, rfl⟩ := h
  exact ⟨sizes, hs, rfl, rfl⟩

omit [Engine S] [Precision R S] in
theorem refresh?_eq_some {v w : View R S} (h : v.refresh? = some w) :
    ∃ sizes, w = { v with sizes } := by
  unfold refresh? at h
  split_ifs at h with hk
  · exact ⟨v.sizes, by simpa using h.symm⟩
  · obtain ⟨sizes, -, rfl⟩ := Option.map_eq_some_iff.mp h
    exact ⟨sizes, rfl⟩

omit [Engine S] [Precision R S] in
theorem zoomAt?_eq_some {v w : View R S} {p : Point R} {turn : R} (h : v.zoomAt? p turn = some w) :
    ∃ sizes, w = { v with camera := v.camera.zoomAt p turn, sizes } :=
  refresh?_eq_some h

theorem tick?_eq_some {v w : View R S} {dt : S} (h : v.tick? dt = some w) :
    ∃ sizes, w =
      { v with sizes, layout := v.layout.tick dt, flowTime := v.flowTime + widen dt } := by
  simp only [tick?, Option.bind_eq_bind, Option.bind_eq_some_iff, Option.pure_def,
    Option.some.injEq] at h
  obtain ⟨u, hu, rfl⟩ := h
  obtain ⟨sizes, rfl⟩ := refresh?_eq_some hu
  exact ⟨sizes, rfl⟩

/-- A view with the sizes of its zoom lets time pass. -/
theorem tick?_of_sizes {v : View R S} (h : v.sizes.k == v.camera.k) (dt : S) : v.tick? dt =
    some { v with layout := v.layout.tick dt, flowTime := v.flowTime + widen dt } := by
  rw [tick?, refresh?, if_pos h]
  rfl

omit [Engine S] [Precision R S] in
theorem pick_of_nodeAt? {v : View R S} {p : Point R} {i : NodeIdx} {n : Node}
    (h : v.nodeAt? p = some i) (hn : v.graph.node? i = some n) : v.pick p = .node n.id := by
  rw [pick, h, Option.bind_some, hn]

omit [Engine S] [Precision R S] in
theorem press_eq (v : View R S) (p : Point R) :
    ∃ drag pan, v.press p = { v with moved := false, drag, pan } := by
  unfold press
  split
  · exact ⟨_, _, rfl⟩
  · exact ⟨_, _, rfl⟩

omit [Engine S] [Precision R S] in
theorem track_eq (v : View R S) (start p : Point R) : ∃ moved, v.track start p = { v with moved } := by
  unfold track
  split_ifs
  · exact ⟨_, rfl⟩
  · exact ⟨_, rfl⟩

omit [Engine S] [Precision R S] in
theorem track_moved (v : View R S) (start p : Point R) :
    (v.track start p).moved ↔ clickSlop < p.dist start ∨ v.moved := by
  unfold track
  split_ifs with hbeyond
  · simp [hbeyond]
  · simp [hbeyond]

omit [Engine S] [Precision R S] in
theorem panTo_eq (v : View R S) (p : Point R) :
    ∃ camera moved, v.panTo p = { v with camera, moved } := by
  unfold panTo
  obtain ⟨moved, hm⟩ := v.track_eq v.pan.start p
  split_ifs
  · exact ⟨_, moved, by rw [hm]⟩
  · exact ⟨_, _, rfl⟩

/-- The pointer holds a node. -/
structure Holds (v : View R S) (i : NodeIdx) : Prop where
  active : v.drag.active
  node : v.drag.node = some i

omit [Engine S] in
/-- A drag leaves the layout, or pins its node, or heats the layout besides. -/
theorem dragTo_eq (v : View R S) (p : Point R) :
    ∃ moved layout, (v.dragTo p).value = { v with moved, layout } ∧ (v.dragTo p).events = [] ∧
      (layout = v.layout ∨ ∃ i, layout = v.layout.pin i (v.dragged p) ∨
        layout = (v.layout.pin i (v.dragged p)).obey .reheat) := by
  obtain ⟨moved, hm⟩ := v.track_eq v.drag.start p
  unfold dragTo
  dsimp only
  rw [hm]
  cases v.drag.node with
  | some i =>
    dsimp only
    split_ifs
    · exact ⟨_, _, rfl, rfl, .inr ⟨i, .inl rfl⟩⟩
    · exact ⟨_, _, rfl, rfl, .inr ⟨i, .inr rfl⟩⟩
    · exact ⟨_, _, rfl, rfl, .inl rfl⟩
  | none => exact ⟨_, _, rfl, rfl, .inl rfl⟩

omit [Engine S] in
/-- A drag with no node or one that has not travelled does nothing but note how far it is. -/
theorem dragTo_still {v : View R S} {p : Point R}
    (h : v.drag.node = none ∨ ¬ (v.track v.drag.start p).moved) :
    v.dragTo p = { value := v.track v.drag.start p } := by
  obtain ⟨moved, ht⟩ := v.track_eq v.drag.start p
  unfold dragTo
  rw [ht] at h ⊢
  dsimp only at h ⊢
  cases hnode : v.drag.node with
  | some i => exact if_neg (h.resolve_left (by simp [hnode]))
  | none => rfl

omit [Engine S] in
theorem point_held {v : View R S} (hd : v.drag.active) (p : Point R) : v.point p = v.dragTo p :=
  if_pos hd

omit [Engine S] in
theorem point_unheld {v : View R S} (hd : v.drag.active = false) (p : Point R) : (v.point p).value =
    { v.panTo p with hover := (v.hover.move v.graph ((v.panTo p).pick p)).1 } := by
  obtain ⟨camera, moved, hp⟩ := v.panTo_eq p
  simp [point, hd, hp]

omit [Engine S] in
/-- A pointer that holds a node has travelled once it is too far from where it took the node. -/
theorem point_moved_of_drag {v : View R S} (hd : v.drag.active) (p : Point R) :
    (v.point p).value.moved = (v.track v.drag.start p).moved := by
  rw [point_held hd]
  unfold dragTo
  dsimp only
  split
  · split_ifs <;> rfl
  · rfl

omit [Engine S] in
/-- A drag that has travelled pins its node and leaves all else but the heat. -/
theorem point_of_drag {v : View R S} {i : NodeIdx} {p : Point R} (hd : v.Holds i)
    (hm : (v.track v.drag.start p).moved) : ∃ alpha, (v.point p).value =
      { v with moved := true, layout := { v.layout.pin i (v.dragged p) with alpha } } := by
  obtain ⟨moved, ht⟩ := v.track_eq v.drag.start p
  rw [ht] at hm
  obtain rfl : moved = true := hm
  rw [point_held hd.active]
  unfold dragTo
  rw [ht]
  dsimp only
  rw [hd.node]
  dsimp only
  rw [if_pos rfl]
  split_ifs
  · exact ⟨(v.layout.pin i (v.dragged p)).alpha, rfl⟩
  · exact ⟨_, rfl⟩

/-- What an operation does, apart from the sizes that it may look up. -/
def after (v : View R S) : Operation R S → Outcome (View R S)
  | .press p => { value := v.press p }
  | .point p => v.point p
  | .lift p => v.lift p
  | .exit => v.exit
  | .zoom p turn => { value := { v with camera := v.camera.zoomAt p turn } }
  | .tick dt =>
    { value := { v with layout := v.layout.tick dt, flowTime := v.flowTime + widen dt } }
  | .resize width height => { value := v.resize width height }
  | .retune tuning => v.retune tuning
  | .replace g => v.replace g

theorem perform?_after {v : View R S} {op : Operation R S} {o : Outcome (View R S)}
    (h : v.perform? op = some o) :
    ∃ sizes, o = { v.after op with value := { (v.after op).value with sizes } } := by
  cases op with
  | zoom p turn =>
    obtain ⟨w, hw, rfl⟩ := Option.map_eq_some_iff.mp h
    obtain ⟨sizes, rfl⟩ := zoomAt?_eq_some hw
    exact ⟨sizes, rfl⟩
  | tick dt =>
    obtain ⟨w, hw, rfl⟩ := Option.map_eq_some_iff.mp h
    obtain ⟨sizes, rfl⟩ := tick?_eq_some hw
    exact ⟨sizes, rfl⟩
  | _ => exact ⟨_, (Option.some.inj h).symm⟩

/-- What an operation makes of a view. The pointer takes what is near, and moves a node that it
holds only once it has travelled. -/
inductive Yields (v : View R S) : Operation R S → View R S → Prop
  | grip {p a : Point R} {i : NodeIdx} : v.nodeAt? p = some i →
      v.Yields (.press p) { v with moved := false, drag := ⟨true, some i, p, a⟩ }
  | ground {p : Point R} (pan : Pan R) : v.nodeAt? p = none →
      v.Yields (.press p) { v with moved := false, pan }
  | drag {p : Point R} {i : NodeIdx} (alpha : R) : v.Holds i → (v.track v.drag.start p).moved →
      v.Yields (.point p) { v with
        moved := true, layout := { v.layout.pin i (v.dragged p) with alpha } }
  | point {p : Point R} (camera : Camera R) (moved : Bool) (hover : Hover) :
      v.Yields (.point p) { v with camera, moved, hover }
  | lift (p : Point R) : v.Yields (.lift p) v.release
  | exit (hover : Hover) : v.Yields .exit { v.release with hover }
  | zoom (p : Point R) (turn : R) (sizes : Sizes R) :
      v.Yields (.zoom p turn) { v with camera := v.camera.zoomAt p turn, sizes }
  | tick (dt : S) (sizes : Sizes R) : v.Yields (.tick dt)
      { v with sizes, layout := v.layout.tick dt, flowTime := v.flowTime + widen dt }
  | resize (width height : R) : v.Yields (.resize width height) (v.resize width height)
  | retune (t : Tuning R) : v.Yields (.retune t) (v.retune t).value
  | replace (g : Graph) : v.Yields (.replace g) (v.replace g).value

theorem press_yields (v : View R S) (p : Point R) : v.Yields (.press p) (v.press p) := by
  unfold press
  split
  · exact .grip ‹_›
  · exact .ground _ ‹_›

theorem point_yields (v : View R S) (p : Point R) : v.Yields (.point p) (v.point p).value := by
  cases hd : v.drag.active with
  | true =>
    by_cases hstill : v.drag.node = none ∨ ¬ (v.track v.drag.start p).moved
    · obtain ⟨moved, ht⟩ := v.track_eq v.drag.start p
      rw [point_held hd, dragTo_still hstill, ht]
      exact .point v.camera moved v.hover
    · obtain ⟨hnode, hm⟩ := not_or.mp hstill
      obtain ⟨i, hi⟩ := Option.ne_none_iff_exists'.mp hnode
      obtain ⟨alpha, hp⟩ := point_of_drag ⟨hd, hi⟩ (not_not.mp hm)
      rw [hp]
      exact .drag alpha ⟨hd, hi⟩ (not_not.mp hm)
  | false =>
    obtain ⟨camera, moved, hp⟩ := v.panTo_eq p
    rw [point_unheld hd, hp]
    exact .point camera moved _

theorem perform?_yields {v : View R S} {op : Operation R S} {o : Outcome (View R S)}
    (h : v.perform? op = some o) : v.Yields op o.value := by
  cases op with
  | press p =>
    obtain rfl := Option.some.inj h
    exact v.press_yields p
  | point p =>
    obtain rfl := Option.some.inj h
    exact v.point_yields p
  | lift p =>
    obtain rfl := Option.some.inj h
    exact .lift p
  | exit =>
    obtain rfl := Option.some.inj h
    exact .exit _
  | zoom p turn =>
    obtain ⟨w, hw, rfl⟩ := Option.map_eq_some_iff.mp h
    obtain ⟨sizes, rfl⟩ := zoomAt?_eq_some hw
    exact .zoom p turn sizes
  | tick dt =>
    obtain ⟨w, hw, rfl⟩ := Option.map_eq_some_iff.mp h
    obtain ⟨sizes, rfl⟩ := tick?_eq_some hw
    exact .tick dt sizes
  | resize width height =>
    obtain rfl := Option.some.inj h
    exact .resize width height
  | retune tuning =>
    obtain rfl := Option.some.inj h
    exact .retune tuning
  | replace g =>
    obtain rfl := Option.some.inj h
    exact .replace g

/-! ### The hover -/

omit [Engine S] in
theorem point_turns {v : View R S} (hs : v.hover.Settled v.graph) (p : Point R) :
    (v.point p).value.graph = v.graph ∧
      Hover.Turns v.graph v.hover (v.point p).value.hover (v.point p).events := by
  unfold point
  split
  · obtain ⟨moved, layout, hv, he, -⟩ := v.dragTo_eq p
    rw [hv, he]
    exact ⟨rfl, hs.turns⟩
  · obtain ⟨camera, moved, hp⟩ := v.panTo_eq p
    dsimp only
    rw [hp]
    exact ⟨rfl, Hover.move_turns hs _⟩

omit [Engine S] [Precision R S] in
theorem lift_events (v : View R S) (p : Point R) : (v.lift p).events.filter Event.isHover = [] := by
  unfold lift
  dsimp only
  split_ifs
  · exact v.graph.click_filter _
  · rfl

/-- Whatever is done, only another graph takes the place of the graph, and the hover goes over to
what it is on the graph that there is then. -/
theorem perform?_turns {v : View R S} {op : Operation R S} {o : Outcome (View R S)}
    (hs : v.hover.Settled v.graph) (h : v.perform? op = some o) :
    (o.value.graph = v.graph ∨ op = .replace o.value.graph) ∧
      Hover.Turns o.value.graph v.hover o.value.hover (o.events.filter Event.isHover) := by
  obtain ⟨sizes, rfl⟩ := perform?_after h
  cases op with
  | press p =>
    obtain ⟨drag, pan, hp⟩ := v.press_eq p
    dsimp only [after]
    rw [hp]
    exact ⟨.inl rfl, hs.turns⟩
  | point p =>
    obtain ⟨hg, ht⟩ := point_turns hs p
    dsimp only [after]
    rw [hg, ht.filter_told]
    exact ⟨.inl rfl, ht⟩
  | lift p =>
    dsimp only [after]
    rw [v.lift_events p]
    exact ⟨.inl rfl, hs.turns⟩
  | exit =>
    have ht := Hover.leave_turns hs
    exact ⟨.inl rfl, ht.filter_told.symm ▸ ht⟩
  | replace g =>
    have ht := v.hover.rebind_turns g
    exact ⟨.inr rfl, ht.filter_told.symm ▸ ht⟩
  | _ => exact ⟨.inl rfl, hs.turns⟩

namespace Reachable

theorem ofSnapshot {v : View R S} (h : v.Reachable) : v.graph.OfSnapshot ∧ v.hover.Settled v.graph := by
  induction h with
  | start hg hs =>
    obtain ⟨sizes, -, hv, -⟩ := start?_eq_some hs
    rw [hv]
    exact ⟨hg, Hover.idle_settled _⟩
  | perform _ hop ho ih =>
    obtain ⟨hg | hg, ht⟩ := perform?_turns ih.2 ho
    · exact ⟨hg ▸ ih.1, ht.settled⟩
    · rw [hg] at hop
      exact ⟨hop, ht.settled⟩

theorem sound {v : View R S} (h : v.Reachable) : v.graph.Sound := h.ofSnapshot.1.sound

theorem settled {v : View R S} (h : v.Reachable) : v.hover.Settled v.graph := h.ofSnapshot.2

theorem run {o r : Outcome (View R S)} {ops : List (Operation R S)} (ho : o.value.Reachable)
    (hops : ∀ op ∈ ops, op.FromSnapshot) (h : o.run? ops = some r) : r.value.Reachable :=
  Outcome.run?_keeps (fun _ op _ hv hmem hnext => .perform hv (hops op hmem) hnext) ho h

end Reachable

end View

end TunnelMap
