import TunnelMap.Proofs.View.Gesture
import TunnelMap.Proofs.View.Succession

/-! Clicks. A press is a click if the pointer has not travelled when it is let go. Whether it has is
a mark that a press clears, and that a pointer that moves sets once it is beyond the slop from where
it took what it holds. So the moves count, but not the place where the pointer is let go, and a
pointer that holds nothing is let go without a click. A press on the ground outlasts another graph
and is a click on what is there then; a press on a node does not. -/

namespace TunnelMap

variable {R S : Type} [Scalar R] [Engine S] [Precision R S]

/-- What is told of a click on something that is there. -/
def Target.clicked : Target → List Event
  | .node id => [.nodeClicked id]
  | _ => []

theorem Target.mem_clicked {t : Target} {id : NodeId} :
    .nodeClicked id ∈ t.clicked ↔ t = .node id := by
  cases t with
  | node id' => simp [clicked, eq_comm]
  | _ => simp [clicked]

namespace Operation

omit [Engine S] [Precision R S] in
/-- The operations that a press at `p` may rest through: time, another graph of a snapshot, and a move
within the slop. -/
def Rests (p : Point R) : Operation R S → Prop
  | .tick _ => True
  | .replace g => g.OfSnapshot
  | .point s => ¬ View.clickSlop < s.dist p
  | _ => False

section Rests

variable {p : Point R} {op : Operation R S} (h : op.Rests p)

include h

omit [Engine S] [Precision R S] in
theorem Rests.fromSnapshot : op.FromSnapshot := by
  cases op with
  | replace g => exact h
  | _ => trivial

omit [Engine S] [Precision R S] in
theorem Rests.not_presses : ¬ op.Presses := by
  cases op with
  | press q => exact h.elim
  | _ => exact id

omit [Engine S] [Precision R S] in
theorem Rests.not_dropsGround : ¬ op.DropsGround := by
  cases op with
  | lift q => exact h.elim
  | exit => exact h.elim
  | _ => exact id

omit [Engine S] [Precision R S] in
theorem Rests.dropsNode_iff : op.DropsNode ↔ ∃ g, op = .replace g := by
  cases op with
  | replace g => exact iff_of_true trivial ⟨g, rfl⟩
  | lift q => exact h.elim
  | exit => exact h.elim
  | _ => exact iff_of_false id nofun

end Rests

end Operation

namespace View

/-! ### What a release tells -/

omit [Engine S] [Precision R S] in
theorem exists_of_pick {v : View R S} {p : Point R} {id : NodeId} (h : v.pick p = .node id) :
    ∃ i n, v.graph.node? i = some n ∧ n.id = id := by
  unfold pick at h
  split at h
  · next n hn =>
    obtain ⟨i, -, hi⟩ := Option.bind_eq_some_iff.mp hn
    exact ⟨i, n, hi, Target.node.inj h⟩
  · split at h
    · exact nomatch h
    · exact nomatch h

omit [Engine S] [Precision R S] in
/-- What the pointer is over is there to be clicked. -/
theorem click_pick {v : View R S} (hg : v.graph.Sound) (p : Point R) :
    v.graph.click (v.pick p) = (v.pick p).clicked := by
  cases hpick : v.pick p with
  | node id =>
    obtain ⟨i, n, hn, hid⟩ := exists_of_pick hpick
    have hi : v.graph.nodeIdx? id = some i := hg.nodeIdx?_eq_some.mpr ⟨n, hn, hid⟩
    simp [Graph.click, Target.clicked, hi]
  | _ => rfl

omit [Engine S] [Precision R S] in
theorem lift_told {v : View R S} (hg : v.graph.Sound) (p : Point R) :
    (v.lift p).events = if v.isPressed ∧ ¬ v.moved then (v.pick p).clicked else [] := by
  simp [lift, click_pick hg]

omit [Engine S] [Precision R S] in
theorem mem_lift_told {v : View R S} (hg : v.graph.Sound) {p : Point R} {id : NodeId} :
    .nodeClicked id ∈ (v.lift p).events ↔ v.pick p = .node id ∧ v.isPressed ∧ ¬ v.moved := by
  rw [lift_told hg]
  split_ifs with h
  · rw [Target.mem_clicked, and_iff_left h]
  · exact iff_of_false List.not_mem_nil fun hclick => h hclick.2

/-! ### Travel -/

/-- Where the pointer took what it holds; a node comes before the ground. -/
def grippedAt? (v : View R S) : Option (Point R) :=
  if v.drag.active then some v.drag.start
  else if v.pan.active then some v.pan.start
  else none

/-- Whether an operation takes the pointer beyond the slop from where it took what it holds. -/
def Travels (v : View R S) : Operation R S → Prop
  | .point p => ∃ q, v.grippedAt? = some q ∧ clickSlop < p.dist q
  | _ => False

omit [Engine S] in
theorem point_moved (v : View R S) (p : Point R) :
    (v.point p).value.moved ↔ v.Travels (.point p) ∨ v.moved := by
  cases hd : v.drag.active with
  | true =>
    rw [point_moved_of_drag hd, track_moved]
    simp [Travels, grippedAt?, hd]
  | false =>
    rw [point_unheld hd]
    dsimp only [panTo]
    split_ifs with ha
    · dsimp only
      rw [track_moved]
      simp [Travels, grippedAt?, hd, ha]
    · simp [Travels, grippedAt?, hd, ha]

omit [Engine S] in
/-- A pointer that holds a node and stays within the slop changes nothing. -/
theorem point_still {v : View R S} {p : Point R} (hd : v.drag.active) (hm : v.moved = false)
    (hp : ¬ clickSlop < p.dist v.drag.start) : v.point p = { value := v } := by
  have htrack : v.track v.drag.start p = v := if_neg hp
  rw [point_held hd, dragTo_still (.inr (by simp [htrack, hm])), htrack]

/-- The pointer has travelled after an operation that makes it travel, or still. -/
theorem perform?_moved {v : View R S} {op : Operation R S} {o : Outcome (View R S)}
    (h : v.perform? op = some o) : o.value.moved ↔ v.Travels op ∨ v.moved ∧ ¬ op.Presses := by
  obtain ⟨sizes, rfl⟩ := perform?_after h
  cases op with
  | press p =>
    cases hat : v.nodeAt? p with
    | some i => simp [after, press_node hat, Travels, Operation.Presses]
    | none => simp [after, press_ground hat, Travels, Operation.Presses]
  | point p => simpa [after, Operation.Presses] using v.point_moved p
  | _ => simp [after, Travels, Operation.Presses, lift, release, exit, resize, retune, replace]

/-! ### Where the pointer holds -/

omit [Scalar R] [Engine S] [Precision R S] in
/-- What the pointer holds, it took at `p`. -/
def GripsAt (v : View R S) (p : Point R) : Prop :=
  (v.drag.active → v.drag.start = p) ∧ (v.pan.active → v.pan.start = p)

omit [Scalar R] [Engine S] [Precision R S] in
theorem GripsAt.eq_of_grippedAt? {v : View R S} {p q : Point R} (h : v.GripsAt p)
    (hq : v.grippedAt? = some q) : q = p := by
  unfold grippedAt? at hq
  split_ifs at hq with hd ha
  · exact (Option.some.inj hq).symm.trans (h.1 hd)
  · exact (Option.some.inj hq).symm.trans (h.2 ha)

omit [Scalar R] [Engine S] [Precision R S] in
theorem exists_grippedAt? {v : View R S} (h : v.isPressed) : ∃ q, v.grippedAt? = some q := by
  unfold grippedAt?
  split_ifs with hd ha
  · exact ⟨_, rfl⟩
  · exact ⟨_, rfl⟩
  · exact absurd h (by simp [isPressed, hd, ha])

omit [Engine S] [Precision R S] in
theorem press_gripsAt {v : View R S} (hfree : v.isPressed = false) (p : Point R) :
    (v.press p).GripsAt p := by
  obtain ⟨hd, ha⟩ : v.drag.active = false ∧ v.pan.active = false := by simpa [isPressed] using hfree
  cases hat : v.nodeAt? p with
  | some i =>
    rw [press_node hat]
    exact ⟨fun _ => rfl, fun ha' => absurd ha' (by simp [ha])⟩
  | none =>
    rw [press_ground hat]
    exact ⟨fun hd' => absurd hd' (by simp [hd]), fun _ => rfl⟩

theorem GripsAt.perform {v : View R S} {op : Operation R S} {o : Outcome (View R S)} {p : Point R}
    (hv : v.GripsAt p) (hop : ¬ op.Presses) (h : v.perform? op = some o) : o.value.GripsAt p := by
  obtain ⟨hdrag, hpan⟩ := Prod.ext_iff.mp (perform?_held h)
  rw [GripsAt, show o.value.drag = (v.held op).1 from hdrag,
    show o.value.pan = (v.held op).2 from hpan]
  cases op with
  | press q => exact absurd trivial hop
  | lift q => exact ⟨nofun, nofun⟩
  | exit => exact ⟨nofun, nofun⟩
  | replace g => exact ⟨nofun, hv.2⟩
  | _ => exact hv

end View

namespace Outcome

/-- The operations come to a press at `p` and go on without another one, without letting go of the
ground and without a move beyond the slop from `p`. -/
def RestsSince (p : Point R) (ops : List (Operation R S)) : Prop :=
  ∃ before after, ops = before ++ .press p :: after ∧
    ∀ later ∈ after, ¬ later.Presses ∧ ¬ later.DropsGround ∧
      ∀ s, later = .point s → ¬ View.clickSlop < s.dist p

/-- A pointer that holds something in an orderly run took it at the last press, and rests there as
long as it has not travelled. -/
theorem orderly_rests {o r : Outcome (View R S)} {ops : List (Operation R S)}
    (ho : o.value.isPressed = false) (hops : o.Orderly ops) (h : o.run? ops = some r)
    (hpressed : r.value.isPressed) :
    ∃ p, r.value.GripsAt p ∧ (¬ r.value.moved → RestsSince p ops) := by
  induction ops using List.reverseRecOn generalizing r with
  | nil =>
    obtain rfl : o = r := by simpa using h
    exact absurd hpressed (by simp [ho])
  | append_singleton ops op ih =>
    obtain ⟨m, hm, hr⟩ := run?_concat.mp h
    obtain ⟨next, hnext, rfl⟩ := perform?_eq_some.mp hr
    by_cases hop : op.Presses
    · cases op with
      | press p =>
        obtain rfl := Option.some.inj hnext
        have hfree : m.value.isPressed = false := hops ops p [] m rfl hm
        exact ⟨p, View.press_gripsAt hfree p, fun _ => ⟨ops, [], rfl, nofun⟩⟩
      | _ => exact absurd hop id
    · obtain ⟨hheld, hkeep⟩ := View.isPressed_of_perform? hop hnext hpressed
      obtain ⟨p, hgrips, hrests⟩ := ih hops.of_concat hm hheld
      have hgrips' : next.value.GripsAt p := hgrips.perform hop hnext
      refine ⟨p, hgrips', fun hunmoved => ?_⟩
      obtain ⟨htravels, hbefore⟩ := not_or.mp (mt (View.perform?_moved hnext).mpr hunmoved)
      obtain ⟨before, after, rfl, hafter⟩ := hrests fun hmoved => hbefore ⟨hmoved, hop⟩
      refine ⟨before, after ++ [op], by simp, fun later hlater => ?_⟩
      rcases List.mem_append.mp hlater with hlater | hlater
      · exact hafter later hlater
      · obtain rfl := List.mem_singleton.mp hlater
        refine ⟨hop, hkeep, fun s hs hbeyond => htravels ?_⟩
        obtain ⟨q, hq⟩ := View.exists_grippedAt? hheld
        obtain rfl := hgrips.eq_of_grippedAt? hq
        rw [hs]
        exact ⟨q, hq, hbeyond⟩

end Outcome

namespace View

/-! ### Clicks in a run -/

/-- In every run from a start, letting the pointer go tells of a click on a node just if the pointer
is over it, holds something since a press, and no move has travelled since the last press. Then
nothing else is told, the node is one of the graph and the hover stays; and provided that every press
came when the pointer held nothing, it has rested where it was pressed last. -/
theorem click_since {g : Graph} {tuning : Tuning R} {sizing : Sizing R} {width height : R}
    {o r : Outcome (View R S)} {ops : List (Operation R S)} (hg : g.OfSnapshot)
    (hops : ∀ op ∈ ops, op.FromSnapshot) (hs : start? g tuning sizing width height = some o)
    (h : o.run? ops = some r) (q : Point R) (id : NodeId) :
    (.nodeClicked id ∈ (r.value.lift q).events ↔ r.value.pick q = .node id ∧
      (o.Since TakesNode Operation.DropsNode ops ∨ o.Since TakesGround Operation.DropsGround ops) ∧
      ¬ o.Since Travels Operation.Presses ops) ∧
    (.nodeClicked id ∈ (r.value.lift q).events →
      (r.value.lift q).events = [.nodeClicked id] ∧
      (∃ i n, r.value.graph.node? i = some n ∧ n.id = id) ∧
      (r.value.lift q).value.hover = r.value.hover ∧ r.value.isPressed ∧
      (o.Orderly ops → ∃ p, r.value.GripsAt p ∧ Outcome.RestsSince p ops)) := by
  obtain ⟨sizes, -, hv, -⟩ := start?_eq_some hs
  have hfree : o.value.isPressed = false := by rw [hv]; rfl
  have hunmoved : ¬ o.value.moved := by rw [hv]; exact Bool.false_ne_true
  have hsound : r.value.graph.Sound := (Reachable.run (.start hg hs) hops h).sound
  have hdrag : r.value.drag.active ↔ o.Since TakesNode Operation.DropsNode ops :=
    Outcome.run?_since (P := fun v => v.drag.active) perform?_drag (by simp [hv]) h
  have hpan : r.value.pan.active ↔ o.Since TakesGround Operation.DropsGround ops :=
    Outcome.run?_since (P := fun v => v.pan.active) perform?_pan (by simp [hv]) h
  have hmoved : r.value.moved ↔ o.Since Travels Operation.Presses ops :=
    Outcome.run?_since (P := fun v => v.moved) perform?_moved hunmoved h
  refine ⟨?_, fun hclick => ?_⟩
  · rw [mem_lift_told hsound, isPressed_iff, hdrag, hpan, hmoved]
  · obtain ⟨hpick, hheld, hstill⟩ := (mem_lift_told hsound).mp hclick
    refine ⟨?_, exists_of_pick hpick, rfl, hheld, fun horderly => ?_⟩
    · rw [lift_told hsound, if_pos ⟨hheld, hstill⟩, hpick]
      rfl
    · obtain ⟨p, hgrips, hrests⟩ := Outcome.orderly_rests hfree horderly h hheld
      exact ⟨p, hgrips, hrests hstill⟩

/-- A press on a node, and a move that stays there. -/
theorem click_since_rest : ∃ (g : Graph) (o r : Outcome (View ℝ ℝ)) (p : Point ℝ), g.OfSnapshot ∧
    start? g .standard .standard 0 0 = some o ∧ o.run? [.press p, .point p] = some r ∧
      (r.value.lift p).events = [.nodeClicked ⟨"a"⟩] ∧
      ∃ q, r.value.GripsAt q ∧ Outcome.RestsSince q [.press p, .point (S := ℝ) p] := by
  let e : NodeEntry := ⟨⟨"a"⟩, .interface, {}⟩
  have hlone : Graph.OfSnapshot (.ofParts [e.node] []) := .lone e
  obtain ⟨o, p, -, ho, hp, -⟩ := exists_start (S := ℝ) e.node
  obtain ⟨sizes, -, hv, -⟩ := start?_eq_some ho
  obtain ⟨r, hr⟩ : ∃ r, o.run? [.press p, .point p] = some r := ⟨_, rfl⟩
  have hops : ∀ op ∈ [Operation.press (S := ℝ) p, .point p], op.FromSnapshot := by
    simp [Operation.FromSnapshot]
  have horderly : o.Orderly [.press p, .point p] :=
    Outcome.orderly_press_cons (by rw [hv]; rfl) p (by simp [Operation.Presses])
  have hstill : ¬ clickSlop < p.dist p := by
    rw [Point.dist_self]
    exact (Nat.cast_nonneg 3).not_gt
  have hrv : r.value = o.value.press p := by
    obtain rfl := Option.some.inj hr
    rw [press_node hp]
    exact congrArg Outcome.value (point_still rfl rfl hstill)
  have hpick : r.value.pick p = .node e.id := by
    rw [hrv, press_node hp]
    exact pick_of_nodeAt? hp (by rw [hv]; rfl)
  have hmem : .nodeClicked e.id ∈ (r.value.lift p).events := by
    refine (mem_lift_told (Reachable.run (.start hlone ho) hops hr).sound).mpr ⟨hpick, ?_, ?_⟩
    · rw [hrv, press_node hp]
      rfl
    · rw [hrv, press_node hp]
      exact Bool.false_ne_true
  obtain ⟨htold, -, -, -, hrests⟩ := (click_since hlone hops ho hr p e.id).2 hmem
  exact ⟨_, o, r, p, hlone, ho, hr, htold, hrests horderly⟩

/-- The pointer is pressed on the ground and let go on a node, far from there. -/
theorem click_far_off : ∃ (v : View ℝ ℝ) (p q : Point ℝ), v.Reachable ∧ v.isPressed = false ∧
    ((v.press p).lift q).events = [.nodeClicked ⟨"a"⟩] ∧ clickSlop < q.dist p := by
  let e : NodeEntry := ⟨⟨"a"⟩, .interface, {}⟩
  have hlone : Graph.OfSnapshot (.ofParts [e.node] []) := .lone e
  obtain ⟨o, ho, hg, hplace, hk, hr⟩ := exists_lone (S := ℝ) e.node
  obtain ⟨sizes, -, hv, -⟩ := start?_eq_some ho
  have hn : o.value.graph.nodes = [e.node] := congrArg Graph.nodes hg
  have hk' : o.value.camera.k ≠ 0 := hk ▸ one_ne_zero
  let a : ℝ := o.value.sizes.hitRadiusOf e.node.kind + 4
  let place : Point ℝ := Layout.seed 1 0
  let p : Point ℝ := o.value.camera.toScreen ⟨place.x + a, place.y⟩
  let q : Point ℝ := o.value.camera.toScreen place
  have hp : o.value.nodeAt? p = none :=
    nodeAt?_lone_beside hn hplace hk' (by linarith) (by linarith)
  have hpick : (o.value.press p).pick q = .node e.id := by
    rw [press_ground hp]
    exact pick_of_nodeAt? (nodeAt?_lone_self hn hplace hk' hr) (by rw [hg]; rfl)
  have hpressed : (o.value.press p).isPressed ∧ ¬ (o.value.press p).moved := by
    rw [press_ground hp, isPressed_iff]
    exact ⟨.inr rfl, Bool.false_ne_true⟩
  have hsound : (o.value.press p).graph.Sound := by
    rw [press_ground hp, hg]
    exact hlone.sound
  refine ⟨o.value, p, q, .start hlone ho, by rw [hv]; rfl, ?_, ?_⟩
  · rw [lift_told hsound, if_pos hpressed, hpick]
    rfl
  · have hp' : p = ⟨q.x + a, q.y⟩ := by
      rw [show p = _ from Camera.toScreen_across _ place a, hk, mul_one]
    rw [Point.dist_comm, hp']
    exact clickSlop_lt_dist_across q (by linarith)

/-! ### A press that rests -/

/-- A press that rests does not travel. -/
theorem run?_rests {o r : Outcome (View R S)} {p : Point R} {ops : List (Operation R S)}
    (hgrips : o.value.GripsAt p) (hmoved : ¬ o.value.moved) (hops : ∀ op ∈ ops, op.Rests p)
    (h : o.run? ops = some r) : ¬ r.value.moved := by
  have hkeeps : r.value.GripsAt p ∧ ¬ r.value.moved := by
    refine Outcome.run?_keeps (P := fun v => v.GripsAt p ∧ ¬ v.moved)
      (fun v op next hv hmem hnext => ?_) ⟨hgrips, hmoved⟩ h
    have hop : op.Rests p := hops op hmem
    refine ⟨hv.1.perform hop.not_presses hnext, fun htravelled => ?_⟩
    rcases (perform?_moved hnext).mp htravelled with htravels | ⟨hbefore, -⟩
    · cases op with
      | point s =>
        obtain ⟨q, hq, hbeyond⟩ := htravels
        obtain rfl := hv.1.eq_of_grippedAt? hq
        exact hop hbeyond
      | _ => exact htravels
    · exact hv.2 hbefore
  exact hkeeps.2

/-- A press that rests lasts, unless it was on a node and another graph came in. -/
theorem isPressed_of_rests {v : View R S} (hfree : v.isPressed = false) {p : Point R}
    {ops : List (Operation R S)} (hops : ∀ op ∈ ops, op.Rests p) {r : Outcome (View R S)}
    (h : Outcome.run? { value := v.press p } ops = some r) :
    r.value.isPressed ↔ v.nodeAt? p = none ∨ ∀ g, .replace g ∉ ops := by
  have hdrag : r.value.drag.active ↔ (v.press p).drag.active ∧ ∀ op ∈ ops, ¬ op.DropsNode :=
    Outcome.run?_lasts (P := fun v => v.drag.active)
      (fun hmem hnext => perform?_drag_of_not_presses (hops _ hmem).not_presses hnext) h
  have hpan : r.value.pan.active ↔ (v.press p).pan.active ∧ ∀ op ∈ ops, ¬ op.DropsGround :=
    Outcome.run?_lasts (P := fun v => v.pan.active)
      (fun hmem hnext => perform?_pan_of_not_presses (hops _ hmem).not_presses hnext) h
  have hnone : (∀ op ∈ ops, ¬ op.DropsNode) ↔ ∀ g, .replace g ∉ ops := by
    refine ⟨fun hkept g hmem => hkept _ hmem trivial, fun hkept op hmem hdrops => ?_⟩
    obtain ⟨g, rfl⟩ := (hops op hmem).dropsNode_iff.mp hdrops
    exact hkept g hmem
  have hground : ∀ op ∈ ops, ¬ op.DropsGround := fun op hmem => (hops op hmem).not_dropsGround
  obtain ⟨hd, ha⟩ : v.drag.active = false ∧ v.pan.active = false := by simpa [isPressed] using hfree
  rw [isPressed_iff, hdrag, hpan, hnone, and_iff_left hground]
  cases hat : v.nodeAt? p with
  | some i => simp [press_node hat, ha]
  | none => simp [press_ground hat]

/-- A press that comes when the pointer holds nothing and then rests is a click on what is there when
it is let go, unless it was on a node and another graph came in; then it is none. -/
theorem Reachable.rested_press {v : View R S} (hv : v.Reachable) (hfree : v.isPressed = false)
    {p : Point R} {ops : List (Operation R S)} (hops : ∀ op ∈ ops, op.Rests p)
    {r : Outcome (View R S)} (h : Outcome.run? { value := v.press p } ops = some r) (q : Point R) :
    (v.nodeAt? p = none ∨ (∀ g, .replace g ∉ ops) →
      (r.value.lift q).events = (r.value.pick q).clicked) ∧
    (v.nodeAt? p ≠ none ∧ (∃ g, .replace g ∈ ops) → (r.value.lift q).events = []) := by
  have hop : (.press p : Operation R S).FromSnapshot := trivial
  have hsound : r.value.graph.Sound :=
    (Reachable.run (.perform hv hop rfl) (fun op hmem => (hops op hmem).fromSnapshot) h).sound
  have hunmoved : ¬ (v.press p).moved := by
    obtain ⟨drag, pan, hpress⟩ := v.press_eq p
    rw [hpress]
    exact Bool.false_ne_true
  have hstill : ¬ r.value.moved := run?_rests (press_gripsAt hfree p) hunmoved hops h
  have hpressed := isPressed_of_rests hfree hops h
  rw [lift_told hsound]
  refine ⟨fun hlasts => if_pos ⟨hpressed.mpr hlasts, hstill⟩, fun ⟨hnode, g, hg⟩ => if_neg ?_⟩
  rintro ⟨hheld, -⟩
  rcases hpressed.mp hheld with hnone | hnone
  · exact hnode hnone
  · exact hnone g hg

/-- The ground is pressed beside the only node, another node takes the place of that one, and the
pointer is let go on it. -/
theorem rested_press_on_newcomer : ∃ (v : View ℝ ℝ) (p q : Point ℝ) (g : Graph)
    (r : Outcome (View ℝ ℝ)), v.Reachable ∧ v.isPressed = false ∧ v.nodeAt? p = none ∧
      (∀ op ∈ [Operation.replace (R := ℝ) (S := ℝ) g], op.Rests p) ∧
      Outcome.run? { value := v.press p } [.replace g] = some r ∧ v.pick q = .node ⟨"a"⟩ ∧
      (r.value.lift q).events = [.nodeClicked ⟨"b"⟩] := by
  let a : NodeEntry := ⟨⟨"a"⟩, .interface, {}⟩
  let b : NodeEntry := ⟨⟨"b"⟩, .interface, {}⟩
  let g : Graph := .ofParts [b.node] []
  have ha : Graph.OfSnapshot (.ofParts [a.node] []) := .lone a
  have hb : g.OfSnapshot := .lone b
  obtain ⟨o, ho, hg, hplace, hk, hr⟩ := exists_lone (S := ℝ) a.node
  obtain ⟨sizes, -, hv, -⟩ := start?_eq_some ho
  have hreach : o.value.Reachable := .start ha ho
  have hn : o.value.graph.nodes = [a.node] := congrArg Graph.nodes hg
  have hk' : o.value.camera.k ≠ 0 := hk ▸ one_ne_zero
  have hfree : o.value.isPressed = false := by rw [hv]; rfl
  let place : Point ℝ := Layout.seed 1 0
  let p : Point ℝ :=
    o.value.camera.toScreen ⟨place.x + o.value.sizes.hitRadiusOf a.node.kind, place.y⟩
  let q : Point ℝ := o.value.camera.toScreen place
  have hp : o.value.nodeAt? p = none := nodeAt?_lone_beside hn hplace hk' hr.le le_rfl
  have hq : o.value.pick q = .node a.id :=
    pick_of_nodeAt? (nodeAt?_lone_self hn hplace hk' hr) (by rw [hg]; rfl)
  have hops : ∀ op ∈ [Operation.replace (R := ℝ) (S := ℝ) g], op.Rests p :=
    List.forall_mem_singleton.mpr hb
  obtain ⟨r, hrun⟩ : ∃ r, Outcome.run? { value := o.value.press p } [.replace g] = some r :=
    ⟨_, rfl⟩
  have hnew : r.value.pick q = .node b.id := by
    obtain rfl := Option.some.inj hrun
    exact pick_of_nodeAt? (hreach.press_replace_lone (n := b.node) hg hplace hk' hr p) rfl
  refine ⟨o.value, p, q, g, r, hreach, hfree, hp, hops, hrun, hq, ?_⟩
  rw [(hreach.rested_press hfree hops hrun q).1 (.inl hp), hnew]
  rfl

/-- A node is pressed, its graph comes in anew and the pointer is let go where it is. -/
theorem press_lost_to_graph : ∃ (v : View ℝ ℝ) (p : Point ℝ) (g : Graph), v.Reachable ∧
    v.isPressed = false ∧ g.OfSnapshot ∧ ((v.press p).replace g).value.pick p = .node ⟨"a"⟩ ∧
      (((v.press p).replace g).value.lift p).events = [] := by
  let a : NodeEntry := ⟨⟨"a"⟩, .interface, {}⟩
  have ha : Graph.OfSnapshot (.ofParts [a.node] []) := .lone a
  obtain ⟨o, ho, hg, hplace, hk, hr⟩ := exists_lone (S := ℝ) a.node
  obtain ⟨sizes, -, hv, -⟩ := start?_eq_some ho
  have hreach : o.value.Reachable := .start ha ho
  have hk' : o.value.camera.k ≠ 0 := hk ▸ one_ne_zero
  let p : Point ℝ := o.value.camera.toScreen (Layout.seed 1 0)
  have hp : o.value.nodeAt? p = some 0 :=
    nodeAt?_lone_self (congrArg Graph.nodes hg) hplace hk' hr
  have hat := hreach.press_replace_lone hg hplace hk' hr p
  refine ⟨o.value, p, _, hreach, by rw [hv]; rfl, ha, pick_of_nodeAt? hat rfl, ?_⟩
  rw [press_node hp, hv]
  rfl

end View

end TunnelMap
